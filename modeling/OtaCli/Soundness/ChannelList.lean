import OtaCli.Model.Driver
import OtaCli.Soundness.ProcessRefinement

/-! # The channels that are found

Beside a driver which answers in one way, `Init` appends what the driver describes to the list of the object,
which it never clears, and returns true for the channels that are described and for no others. `Main` opens the
one that was asked for if it is among them, and lists them all if it is not.
-/

namespace OtaCli.Soundness.ChannelList

open Model Interaction LabeledMachine
open KvaserInterface (Fields Listed)

variable {d : Driver} {α φ κ : Type} {o o' : Fields} {event : Performed} {chanelId baudRate : Int32}

/-- The fields of an object beside the driver. -/
def fieldsWith (d : Driver) : LabeledMachine Fields Performed :=
  ⟨fun o event => if d.answers event then o.step event else none⟩

theorem fieldsWith_step_iff :
    (fieldsWith d).step o event = some o' ↔ d.answers event = true ∧ o.step event = some o' :=
  Option.ite_none_right_eq_some

private theorem fieldsWith_run {tape : List Performed} (run : Fields.machine.Run o tape o')
    (told : ∀ event ∈ tape, d.answers event = true) : (fieldsWith d).Run o tape o' := by
  induction tape generalizing o with
  | nil => rwa [Run.nil_iff] at run ⊢
  | cons event rest ih =>
    obtain ⟨answered, later⟩ := List.forall_mem_cons.mp told
    obtain ⟨o₁, acts, run⟩ := Run.cons_iff.mp run
    exact Run.cons_iff.mpr ⟨o₁, fieldsWith_step_iff.mpr ⟨answered, acts⟩, ih run later⟩

section Listing

variable {spec : LabeledMachine φ κ} {view : Fields → Performed → List κ} {k : φ}

/-- Listing the channels and looking at the list is nothing to the view. -/
def Silent (view : Fields → Performed → List κ) : Prop :=
  ∀ o event, KvaserInterface.IsListing event.1 ∨ event.1 = .getInterfaces → view o event = []

/-- An operation of the listing is skipped. -/
theorem listing_follows (silent : Silent view) {op : Op} {next : op.Answer → Code α}
    {post : α → Fields → φ → Prop} (listing : KvaserInterface.IsListing op ∨ op = .getInterfaces)
    (rest : ∀ answer o', d.answers ⟨op, answer⟩ = true → o.step ⟨op, answer⟩ = some o' →
      (next answer).Follows (fieldsWith d) spec view post o' k) :
    (Interaction.perform op next).Follows (fieldsWith d) spec view post o k := by
  apply Follows.skip
  intro answer o' acts
  obtain ⟨answered, acts⟩ := fieldsWith_step_iff.mp acts
  exact ⟨silent o _ listing, rest answer o' answered acts⟩

theorem checked_follows (silent : Silent view) {stat : CanStatus} {cmd : String} {f : Bool → Code α}
    {post : α → Fields → φ → Prop}
    (line : ∀ buf, KvaserInterface.IsListing (.writeLine (KvaserInterface.failed cmd buf stat)))
    (rest : (f (decide (stat ≠ canOK))).Follows (fieldsWith d) spec view post o k) :
    (KvaserInterface.checkForError stat cmd >>= f).Follows (fieldsWith d) spec view post o k := by
  by_cases fine : stat = canOK
  · rw [KvaserInterface.checkForError, if_pos fine]
    simpa [fine] using rest
  · rw [KvaserInterface.checkForError, if_neg fine]
    refine listing_follows silent (.inl trivial) fun buf o₁ _ asks => ?_
    refine listing_follows silent (.inl (line buf)) fun _ o₂ _ writes => ?_
    obtain rfl := Option.some.inj asks
    obtain rfl := Option.some.inj writes
    rwa [decide_eq_true fine] at rest

/-- The loop over the channels appends those that are described before one fails. -/
private theorem listRounds_follows (silent : Silent view) (rounds first : ℕ) (o : Fields) :
    (KvaserInterface.listRounds rounds (Int32.ofNat first)).Follows (fieldsWith d) spec view
      (fun _ o' k' => o' = { o with interfaces := o.interfaces ++ d.described first rounds } ∧ k' = k) o k := by
  induction rounds generalizing first o with
  | zero => exact ⟨by simp, rfl⟩
  | succ rounds ih =>
    refine listing_follows silent (.inl trivial) fun answer o₁ answered acts => ?_
    obtain rfl := Option.some.inj acts
    obtain rfl : answer = d.channelData (Int32.ofNat first) := of_decide_eq_true answered
    refine checked_follows silent (fun buf => ⟨_, buf, _, rfl, .inr rfl⟩) ?_
    by_cases fine : (d.channelData (Int32.ofNat first)).1 = canOK
    · rw [if_neg (by simp [fine])]
      refine listing_follows silent (.inl trivial) fun _ o₂ _ adds => ?_
      obtain rfl := Option.some.inj adds
      have next : Int32.ofNat first + 1 = Int32.ofNat (first + 1) := by simp
      rw [next]
      refine (ih (first + 1) _).mono ?_
      rintro _ o' k' ⟨rfl, rfl⟩
      rw [Driver.described_succ, if_pos fine]
      exact ⟨by simp, rfl⟩
    · rw [if_pos (by simp [fine])]
      exact ⟨by simp [Driver.described_succ, fine], rfl⟩

private theorem listChannels_follows (silent : Silent view) (o : Fields) :
    KvaserInterface.listChannels.Follows (fieldsWith d) spec view
      (fun _ o' k' => o' = { o with interfaces := o.interfaces ++ d.channels } ∧ k' = k) o k := by
  refine listing_follows silent (.inl trivial) fun answer o₁ answered acts => ?_
  obtain rfl := Option.some.inj acts
  obtain rfl : answer = d.numberOfChannels := of_decide_eq_true answered
  refine checked_follows silent (fun buf => ⟨_, buf, _, rfl, .inl rfl⟩) ?_
  by_cases fine : d.numberOfChannels.1 = canOK
  · rw [if_neg (by simp [fine]), Driver.channels, if_pos fine]
    exact listRounds_follows silent _ 0 o
  · rw [if_pos (by simp [fine]), Driver.channels, if_neg fine]
    exact ⟨by simp, rfl⟩

/-- What `Init` does with the channel it has opened. -/
def useChannel (baudRate handle : Int32) : Code Bool := do
  Code.call (.setHandle handle)
  let _ ← KvaserInterface.checkForError (← Code.call .getHandle) "canOpenChannel"
  let status ← Code.call (.canSetBusParams (← Code.call .getHandle) baudRate 0 0 0 0)
  let _ ← KvaserInterface.checkForError status "canSetBusParams"
  let status ← Code.call (.canBusOn (← Code.call .getHandle))
  let _ ← KvaserInterface.checkForError status "canBusOn"
  Code.call .startReader
  return true

/-- `Init` looks for the channel in what it has listed before and now. -/
theorem init_follows (silent : Silent view) {post : Bool → Fields → φ → Prop} (chanelId baudRate : Int32)
    (missing : ∀ o', o'.interfaces = o.interfaces ++ d.channels → ¬ Listed chanelId o'.interfaces →
      post false o' k)
    (found : ∀ o', o'.interfaces = o.interfaces ++ d.channels → Listed chanelId o'.interfaces →
      (Code.call (.canOpenChannel chanelId KvaserInterface.canOPEN_ACCEPT_VIRTUAL) >>= useChannel baudRate).Follows
        (fieldsWith d) spec view post o' k) :
    (KvaserInterface.init chanelId baudRate).Follows (fieldsWith d) spec view post o k := by
  simp only [KvaserInterface.init, call_bind, pure_eq]
  refine listing_follows silent (.inl trivial) fun _ o₁ _ initializes => ?_
  obtain rfl := Option.some.inj initializes
  apply Follows.bind
  apply (listChannels_follows silent o).mono
  rintro _ o₂ _ ⟨rfl, rfl⟩
  refine listing_follows silent (.inr rfl) fun seen o₃ _ looks => ?_
  obtain ⟨rfl, same⟩ := Option.ite_none_right_eq_some.mp looks
  cases same
  split
  case isTrue absent => exact missing _ rfl (not_not.mpr absent)
  case isFalse present => exact found _ rfl present

end Listing

section Operations

/-- What is done about the channel that was asked for: it is opened, or those that are there are listed. -/
def isChoice : Op → Bool
  | .canOpenChannel _ _ => true
  | .writeLine (.format format _) => format == "Found channel: \x7b0\x7d \x7b1\x7d"
  | _ => false

/-- Operations which neither choose a channel nor lengthen the list. -/
def IsOther (op : Op) : Prop := isChoice op = false ∧ ∀ index name, op ≠ .addInterface index name

theorem isOther_failed (cmd buf : String) (stat : CanStatus) :
    IsOther (.writeLine (KvaserInterface.failed cmd buf stat)) :=
  ⟨by simp [isChoice, KvaserInterface.failed], nofun⟩

theorem checkForError_other (stat : CanStatus) (cmd : String) :
    (KvaserInterface.checkForError stat cmd).Only IsOther :=
  KvaserInterface.checkForError_only ⟨rfl, nofun⟩ (isOther_failed cmd · stat)

theorem useChannel_other (baudRate handle : Int32) : (useChannel baudRate handle).Only IsOther := by
  have plain {op : Op} (other : isChoice op = false) (kept : ∀ index name, op ≠ .addInterface index name) :
      IsOther op := ⟨other, kept⟩
  refine ⟨plain rfl nofun, fun _ => ⟨plain rfl nofun, fun _ => (checkForError_other _ _).bind fun _ => ?_⟩⟩
  refine ⟨plain rfl nofun, fun _ => ⟨plain rfl nofun, fun _ => (checkForError_other _ _).bind fun _ => ?_⟩⟩
  exact ⟨plain rfl nofun, fun _ => ⟨plain rfl nofun, fun _ => (checkForError_other _ _).bind fun _ =>
    ⟨plain rfl nofun, fun _ => trivial⟩⟩⟩

/-- And `Init` returns true then. -/
theorem useChannel_true (baudRate handle : Int32) :
    (useChannel baudRate handle).Marks (fun _ => False) (· = true) := by
  simp only [useChannel, call_bind, pure_eq]
  refine .inr fun _ => .inr fun _ => .bind fun _ => .inr fun _ => .inr fun _ => .bind fun _ => ?_
  exact .inr fun _ => .inr fun _ => .bind fun _ => .inr fun _ => rfl

theorem stop_other : KvaserInterface.stop.Only IsOther := by
  apply KvaserInterface.stop_only
  · exact ⟨rfl, nofun⟩
  · exact fun handle => ⟨rfl, nofun⟩
  · exact fun handle => ⟨rfl, nofun⟩
  · exact ⟨rfl, nofun⟩
  · exact checkForError_other

/-- The list is written in one place. -/
theorem interfaces_of_step (other : ∀ index name, event.1 ≠ .addInterface index name)
    (acts : o.step event = some o') : o'.interfaces = o.interfaces := by
  rcases event with ⟨op, answer⟩
  cases op
  case addInterface index name => exact absurd rfl (other index name)
  case getInterfaces =>
    obtain ⟨-, same⟩ := Option.ite_none_right_eq_some.mp acts
    cases same
    rfl
  case getHandle =>
    obtain ⟨-, same⟩ := Option.ite_none_right_eq_some.mp acts
    cases same
    rfl
  all_goals
    cases acts
    rfl

end Operations

section Object

open Lifetime

/-- Beside the driver the code returns only where `post` holds of the fields. -/
abbrev Leaves (d : Driver) (post : α → Fields → Prop) (p : Code α) (o : Fields) : Prop :=
  p.Follows (fieldsWith d) (script Empty) (fun _ _ => []) (fun value o' _ => post value o') o []

theorem Leaves.step {post : α → Fields → Prop} {p q : Code α} (leaves : Leaves d post p o)
    (moves : (Interaction.machine _ _ _).step p event = some q) (acts : o.step event = some o')
    (answered : d.answers event = true) : Leaves d post q o' := by
  obtain ⟨k, run, rest⟩ := Follows.step leaves moves (fieldsWith_step_iff.mpr ⟨answered, acts⟩)
  obtain rfl := Run.nil_iff.mp run
  exact rest

/-- The list of the object when the channels were listed so many times. -/
def copies (d : Driver) (n : ℕ) : List (Int32 × String) := (List.replicate n d.channels).flatten

theorem copies_succ (n : ℕ) : copies d (n + 1) = copies d n ++ d.channels := by
  simp [copies, List.replicate_succ']

private theorem listed_copies_iff (n : ℕ) : Listed chanelId (copies d (n + 1)) ↔ d.Available chanelId := by
  rw [← KvaserInterface.listed_channels_iff]
  induction n with
  | zero => simp [copies]
  | succ n ih => rw [copies_succ, KvaserInterface.listed_append, ih, or_self]

private theorem init_leaves {n : ℕ} (earlier : o.interfaces = copies d n) (chanelId baudRate : Int32) :
    Leaves d (fun value o' => o'.interfaces = copies d (n + 1) ∧ (value = true ↔ d.Available chanelId))
      (KvaserInterface.init chanelId baudRate) o := by
  refine init_follows (fun _ _ _ => rfl) chanelId baudRate ?_ ?_
  all_goals
    intro o₁ listed
    rw [earlier, ← copies_succ] at listed
    rw [listed, listed_copies_iff]
  · intro unavailable
    exact ⟨listed, by simpa using unavailable⟩
  · intro available handle o₂ opens
    obtain ⟨-, opens⟩ := fieldsWith_step_iff.mp opens
    obtain rfl := Option.some.inj opens
    refine ⟨[], .refl _, (useChannel_other _ _).follows_good (I := fun o' => o'.interfaces = copies d (n + 1))
      (useChannel_true _ _) ?_ listed ?_⟩
    · intro event t t' other same acts
      exact ⟨(interfaces_of_step other.2 (fieldsWith_step_iff.mp acts).2).trans same, rfl⟩
    · rintro _ o' rfl same
      exact ⟨same, by simpa using available⟩

private theorem stop_leaves {n : ℕ} (earlier : o.interfaces = copies d n) :
    Leaves d (fun _ o' => o'.interfaces = copies d n) KvaserInterface.stop o := by
  refine stop_other.follows (I := fun o' => o'.interfaces = copies d n) ?_ earlier fun _ _ same => same
  intro event t t' other same acts
  exact ⟨(interfaces_of_step other.2 (fieldsWith_step_iff.mp acts).2).trans same, rfl⟩

def isCallInit : Move → Bool
  | .callInit => true
  | _ => false

/-- Where the list stands: as often as `Init` was called, and after the call that is under way. -/
def Lists (d : Driver) (chanelId : Int32) (n : ℕ) (s : State) : Prop :=
  match s.caller with
  | .idle => s.fields.interfaces = copies d n
  | .init rest =>
    Leaves d (fun value o' => o'.interfaces = copies d n ∧ (value = true ↔ d.Available chanelId)) rest s.fields
  | .stop rest => Leaves d (fun _ o' => o'.interfaces = copies d n) rest s.fields

variable {s t : State} {moves : List Move} {move : Move} {n : ℕ}

theorem Lists.step (lists : Lists d chanelId n s) (stepped : Step chanelId baudRate s move t)
    (answered : ∀ event, move = .caller event → d.answers event = true) :
    Lists d chanelId (n + (isCallInit move).toNat) t ∧
      ∀ value, move = .returnInit value → (value = true ↔ d.Available chanelId) := by
  cases stepped
  case callInit => exact ⟨init_leaves lists _ _, nofun⟩
  case callStop => exact ⟨stop_leaves lists, nofun⟩
  case inInit moves acts => exact ⟨Leaves.step lists moves acts (answered _ rfl), nofun⟩
  case inStop moves acts => exact ⟨Leaves.step lists moves acts (answered _ rfl), nofun⟩
  case returnInit value =>
    obtain ⟨same, verdict⟩ := lists
    refine ⟨same, ?_⟩
    rintro _ ⟨⟩
    exact verdict
  case returnStop => exact ⟨lists, nofun⟩
  case reader caller o slot readers i event pc moved stands inner =>
    exact ⟨lists, nofun⟩

/-- `Init` beside a driver that answers in one way, called as often as one likes, with `Stop` and the loops in
between. Each call appends all the channels which the driver describes, and none is ever taken out; and each
returns true exactly if the channel is among those that are described before the first failure. -/
theorem init_lists (d : Driver) (run : (Lifetime.machine chanelId baudRate).Run Lifetime.new moves s)
    (told : ∀ event, .caller event ∈ moves → d.answers event = true) :
    (s.caller = .idle → s.fields.interfaces = (List.replicate (moves.countP isCallInit) d.channels).flatten) ∧
    ∀ value, .returnInit value ∈ moves →
      (value = true ↔ 0 ≤ chanelId.toInt ∧ chanelId.toInt < d.channels.length) := by
  have held : (∀ event, .caller event ∈ moves → d.answers event = true) →
      Lists d chanelId (moves.countP isCallInit) s ∧
      ∀ value, .returnInit value ∈ moves → (value = true ↔ d.Available chanelId) := by
    refine run.invariant (I := fun moves s => (∀ event, .caller event ∈ moves → d.answers event = true) →
      Lists d chanelId (moves.countP isCallInit) s ∧
      ∀ value, .returnInit value ∈ moves → (value = true ↔ d.Available chanelId))
      (fun _ => ⟨rfl, by simp⟩) ?_
    intro prior middle move next _ before stepped told
    obtain ⟨lists, verdicts⟩ := before fun event member => told event (List.mem_append_left _ member)
    obtain ⟨still, verdict⟩ := lists.step (step_eq_some_iff.mp stepped) fun event same =>
      told event (by simp [same])
    refine ⟨by simpa [List.countP_append, List.countP_singleton, Bool.toNat, Bool.cond_eq_ite] using still,
      fun value member => ?_⟩
    rcases List.mem_append.mp member with earlier | here
    · exact verdicts value earlier
    · exact verdict value (List.mem_singleton.mp here).symm
  obtain ⟨lists, verdicts⟩ := held told
  refine ⟨fun idle => ?_, verdicts⟩
  rw [Lists, idle] at lists
  exact lists

/-- A driver with one channel. -/
def oneDriver : Driver := ⟨(canOK, 1), fun _ => (canOK, "Leaf")⟩

theorem init_lists_of_one_channel :
    Move.returnInit true ∈ ReaderLifetime.initializing ∧ (0 : Int32).toInt < oneDriver.channels.length := by
  have told : ∀ event, .caller event ∈ ReaderLifetime.initializing → oneDriver.answers event = true := by
    simp [ReaderLifetime.initializing, ReaderLifetime.opening, KvaserInterface.oneChannel,
      KvaserInterface.Opening.performed, KvaserInterface.report, Driver.answers, oneDriver, canOK]
  have returned : .returnInit true ∈ ReaderLifetime.initializing := by simp [ReaderLifetime.initializing]
  have lists := init_lists oneDriver ReaderLifetime.initializing_run told
  exact ⟨returned, ((lists.2 true returned).mp rfl).2⟩

end Object

section Program

open Process Proofs.MainCode Proofs.Release

variable {options : CommandLineOptions} {files : String → File} {s : State} {tape : List Process.Event}

/-- What a choice is to the script. -/
def seen (event : Performed) : List Op := if isChoice event.1 then [event.1] else []

theorem seen_of_isOther (other : IsOther event.1) : seen event = [] := if_neg (by simp [other.1])

private theorem flatMap_seen (events : List Performed) : events.flatMap seen = (operations events).filter isChoice := by
  induction events with
  | nil => rfl
  | cons event rest ih =>
    rw [List.flatMap_cons, ih, operations_cons, List.filter_cons, seen]
    split <;> rfl

private theorem seen_silent : Silent fun (_ : Fields) => seen := by
  rintro o ⟨op, answer⟩ (listing | looks)
  · cases op
    case writeLine line =>
      obtain ⟨cmd, buf, stat, rfl, -⟩ := listing
      exact seen_of_isOther (isOther_failed cmd buf stat)
    all_goals first | rfl | exact listing.elim
  · cases looks
    rfl

/-- The line that tells of a channel. -/
def foundChannel (kInterface : Int32 × String) : Op :=
  .writeLine (.format "Found channel: \x7b0\x7d \x7b1\x7d" [.int kInterface.1, .string kInterface.2])

/-- What `Main` is to do about the channel: it opens the one that was asked for, or it lists those there are. -/
def choice (d : Driver) (chanelId : Int32) : List Op :=
  if d.Available chanelId then [.canOpenChannel chanelId KvaserInterface.canOPEN_ACCEPT_VIRTUAL]
  else d.channels.map foundChannel

/-- The contract of code that does what is left to do. -/
abbrev Chooses (d : Driver) (post : α → Fields → List Op → Prop) (p : Code α) (o : Fields) (left : List Op) :
    Prop :=
  p.Follows (fieldsWith d) (script Op) (fun _ => seen) post o left

/-- Nothing is left to do. -/
def Done {α : Type} : α → Fields → List Op → Prop := fun _ _ left => left = []

private theorem other_chooses {p : Code α} (only : p.Only IsOther) (o : Fields) : Chooses d Done p o [] :=
  only.follows (I := fun _ => True) (fun _ _ _ other _ _ => ⟨trivial, seen_of_isOther other⟩) trivial
    fun _ _ _ => rfl

private theorem init_chooses (chanelId baudRate : Int32) :
    Chooses d (fun value o left => if value then left = []
        else left = d.channels.map foundChannel ∧ o.interfaces = d.channels)
      (KvaserInterface.init chanelId baudRate) {} (choice d chanelId) := by
  refine init_follows seen_silent chanelId baudRate ?_ ?_
  all_goals
    intro o₁ listed
    rw [List.nil_append] at listed
    rw [listed, KvaserInterface.listed_channels_iff, choice]
  · intro unavailable
    rw [if_neg unavailable]
    exact ⟨rfl, rfl⟩
  · intro available handle o₂ opens
    rw [if_pos available]
    refine ⟨[], script_run_iff.mpr rfl, (useChannel_other _ _).follows_good (I := fun _ => True)
      (useChannel_true _ _) (fun _ _ _ other _ _ => ⟨trivial, seen_of_isOther other⟩) trivial ?_⟩
    rintro _ o' rfl -
    rfl

theorem toCode_other (client : Client α) : client.toCode.Only IsOther := by
  induction client with
  | ret value => trivial
  | raise e => trivial
  | writeLine value next ih => exact ⟨⟨rfl, nofun⟩, fun _ => ih⟩
  | writeCmdMsgRsp cmd next ih => exact ⟨⟨rfl, nofun⟩, ih⟩

private theorem scanning_other : scanning.Only IsOther := ⟨⟨rfl, nofun⟩, fun _ => trivial⟩

private theorem finish_other : (finish (chosen options files)).Only IsOther := by
  refine ⟨⟨rfl, nofun⟩, fun _ => (toCode_other _).bind fun _ => ⟨⟨rfl, nofun⟩, fun _ => ?_⟩⟩
  refine ⟨⟨rfl, nofun⟩, fun key => (Only.ended key).bind fun _ => ?_⟩
  exact stop_other.bind fun _ => ⟨⟨rfl, nofun⟩, fun _ => trivial⟩

private theorem unavailable_chooses {o : Fields} (listed : o.interfaces = d.channels) :
    Chooses d Done unavailable o (d.channels.map foundChannel) := by
  have prints (interfaces : List (Int32 × String)) (o : Fields) :
      Chooses d Done (interfaces.forM fun kInterface =>
        Code.call (.writeLine (.format "Found channel: \x7b0\x7d \x7b1\x7d"
          [.int kInterface.1, .string kInterface.2]))) o (interfaces.map foundChannel) := by
    induction interfaces generalizing o with
    | nil => exact rfl
    | cons kInterface rest ih =>
      intro _ o' _
      exact ⟨rest.map foundChannel, script_run_iff.mpr rfl, ih o'⟩
  simp only [unavailable, call_bind]
  intro _ o₁ sorries
  obtain rfl := Option.some.inj (fieldsWith_step_iff.mp sorries).2
  refine ⟨_, .refl _, fun _ o₂ available => ?_⟩
  obtain rfl := Option.some.inj (fieldsWith_step_iff.mp available).2
  refine ⟨_, .refl _, fun found o₃ looks => ⟨_, .refl _, ?_⟩⟩
  obtain ⟨rfl, -⟩ := Option.ite_none_right_eq_some.mp (fieldsWith_step_iff.mp looks).2
  rw [listed]
  apply Follows.bind
  apply (prints d.channels o₃).mono
  rintro _ o' left rfl
  exact rfl

private theorem main_chooses (d : Driver) (options : CommandLineOptions) (files : String → File) :
    Chooses d Done (Program.main (some options) files) {} (choice d options.interface) := by
  rw [main_eq]
  apply Follows.bind
  apply (init_chooses _ _).mono
  intro value o left chosen
  cases value with
  | false =>
    obtain ⟨rfl, listed⟩ := chosen
    exact unavailable_chooses listed
  | true =>
    obtain rfl : left = [] := chosen
    refine other_chooses ?_ o
    rw [afterInit, if_pos rfl]
    split
    · exact scanning_other
    · exact (toCode_other _).bind fun _ => finish_other

/-- What `Main` does about its channel. Beside a driver that answers in one way, in every interleaving with the
loop and whatever else the driver answers: where the channel that was asked for is among those that are described
before the first failure, it is opened, once, and no channel is listed; where it is not, nothing is opened, and
the channels there are are listed, each once and in order. No part of it is left when `Main` has returned. -/
theorem opened_or_listed (d : Driver) (options : CommandLineOptions) (files : String → File)
    (run : Process.machine.Run (Process.new (Program.main (some options) files)) tape s)
    (told : ∀ event, .main event ∈ tape → d.answers event = true) :
    (operations (performed tape)).filter isChoice <+: choice d options.interface ∧
    (s.main = .code (.ret ()) → (operations (performed tape)).filter isChoice = choice d options.interface) := by
  obtain ⟨codeRun, fieldsRun⟩ := ProcessRefinement.collapsed_run run
  have answered : ∀ event ∈ performed tape, d.answers event = true := by
    intro event member
    obtain ⟨source, inside, same⟩ := List.mem_filterMap.mp member
    cases source <;> cases same
    · exact told _ inside
    · rfl
  obtain ⟨left, path, rest⟩ :=
    (main_chooses d options files).run codeRun (fieldsWith_run fieldsRun answered)
  rw [flatMap_seen, script_run_iff] at path
  refine ⟨⟨left, path.symm⟩, fun returned => ?_⟩
  rw [returned] at rest
  obtain rfl : left = [] := rest
  rw [path, List.append_nil]

/-- A program that asks for no channel lists the one there is. -/
def listing : List Performed :=
  KvaserInterface.oneChannel ++
    [⟨.writeLine (.text "sorry, but the selected device is not available"), ()⟩,
      ⟨.writeLine (.text "available devices are:"), ()⟩, ⟨.getInterfaces, [(0, "Leaf")]⟩,
      ⟨foundChannel (0, "Leaf"), ()⟩]

theorem opened_or_listed_of_default :
    ∃ s, Process.machine.Run (Process.new (Program.main (some {}) fun _ => .ok [])) (listing.map .main) s ∧
      (operations (performed (listing.map .main))).filter isChoice = [foundChannel (0, "Leaf")] := by
  have run : Process.machine.Run (Process.new (Program.main (some {}) fun _ => .ok [])) (listing.map .main)
      ⟨.code (.ret ()), ⟨[(0, "Leaf")], 0, false⟩, none, []⟩ := rfl
  have told : ∀ event, .main event ∈ listing.map Process.Event.main → oneDriver.answers event = true := by
    simp [listing, KvaserInterface.oneChannel, Driver.answers, oneDriver, foundChannel]
  exact ⟨_, run, (opened_or_listed oneDriver {} _ run told).2 rfl⟩

end Program

end OtaCli.Soundness.ChannelList
