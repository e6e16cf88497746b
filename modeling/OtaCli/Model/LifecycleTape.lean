import OtaCli.Model.Lifecycle

/-! # What `Init` and `Stop` do

Both come to their end whatever they are answered, and neither raises. Their tapes are spelled out: the
listing of the channels, the three calls that open one, and the two that close it, each followed by what
`CheckForError` reports.
-/

namespace OtaCli.Model

/-- The operations of a tape, without the answers. -/
def operations (tape : List Performed) : List Op := tape.map Sigma.fst

/-- The handle which `canOpenChannel` has returned, or the negative status. -/
@[simp] def opened? : Performed → Option Int32
  | ⟨.canOpenChannel _ _, handle⟩ => some handle
  | _ => none

/-- An operation on a handle, with the status it has returned. -/
@[simp] def status? : Performed → Option (Op × CanStatus)
  | ⟨.canSetBusParams handle freq tseg1 tseg2 sjw noSamp, status⟩ =>
    some (.canSetBusParams handle freq tseg1 tseg2 sjw noSamp, status)
  | ⟨.canBusOn handle, status⟩ => some (.canBusOn handle, status)
  | ⟨.canBusOff handle, status⟩ => some (.canBusOff handle, status)
  | ⟨.canClose handle, status⟩ => some (.canClose handle, status)
  | _ => none

def opened (tape : List Performed) : List Int32 := tape.filterMap opened?

def statuses (tape : List Performed) : List (Op × CanStatus) := tape.filterMap status?

section Readings

variable (first second : List Performed)

@[simp] theorem operations_append :
    operations (first ++ second) = operations first ++ operations second := List.map_append

@[simp] theorem opened_append : opened (first ++ second) = opened first ++ opened second :=
  List.filterMap_append

@[simp] theorem statuses_append : statuses (first ++ second) = statuses first ++ statuses second :=
  List.filterMap_append

theorem opened_cons (event : Performed) (tape : List Performed) :
    opened (event :: tape) = (opened? event).toList ++ opened tape := by
  rw [opened, List.filterMap_cons]
  cases opened? event <;> rfl

theorem statuses_cons (event : Performed) (tape : List Performed) :
    statuses (event :: tape) = (status? event).toList ++ statuses tape := by
  rw [statuses, List.filterMap_cons]
  cases status? event <;> rfl

@[simp] theorem opened_nil : opened [] = [] := rfl

@[simp] theorem statuses_nil : statuses [] = [] := rfl

@[simp] theorem operations_cons (event : Performed) (tape : List Performed) :
    operations (event :: tape) = event.1 :: operations tape := rfl

@[simp] theorem operations_nil : operations [] = [] := rfl

end Readings

namespace KvaserInterface

open Code Interaction LabeledMachine

variable {chanelId baudRate : Int32} {tape : List Performed} {o o' : Fields}

/-- What `CheckForError` does with a status, and the text it is given for it. -/
def report (cmd : String) (stat : CanStatus) (buf : String) : List Performed :=
  if stat = canOK then []
  else [⟨.canGetErrorText stat, buf⟩, ⟨.writeLine (failed cmd buf stat), ()⟩]

theorem ends_checkForError_iff {cmd : String} {stat : CanStatus} {outcome : Except Exception Bool} :
    Ends (checkForError stat cmd) tape outcome ↔
      ∃ buf, tape = report cmd stat buf ∧ outcome = .ok (decide (stat ≠ canOK)) := by
  by_cases fine : stat = canOK
  · simp [checkForError, report, fine]
  · have code : checkForError stat cmd = .perform (.canGetErrorText stat) fun buf =>
        .perform (.writeLine (failed cmd buf stat)) fun _ => .ret true := if_neg fine
    simp only [code, report, if_neg fine, ends_perform_iff, ends_ret_iff, decide_eq_true fine]
    constructor
    · rintro ⟨buf, _, rfl, ⟨⟩, _, rfl, rfl, same⟩
      exact ⟨buf, rfl, same⟩
    · rintro ⟨buf, rfl, same⟩
      exact ⟨buf, _, rfl, (), _, rfl, rfl, same⟩

/-- Where the result of `CheckForError` is used or dropped, the rest follows its report. -/
theorem ends_checkForError_bind_iff {α : Type} {cmd : String} {stat : CanStatus} {f : Bool → Code α}
    {outcome : Except Exception α} :
    Ends (checkForError stat cmd >>= f) tape outcome ↔
      ∃ buf rest, tape = report cmd stat buf ++ rest ∧ Ends (f (decide (stat ≠ canOK))) rest outcome := by
  rw [ends_bind_iff]
  constructor
  · rintro (⟨value, first, rest, rfl, checked, ends⟩ | ⟨e, checked, -⟩)
    · obtain ⟨buf, rfl, same⟩ := ends_checkForError_iff.mp checked
      cases same
      exact ⟨buf, rest, rfl, ends⟩
    · obtain ⟨buf, -, same⟩ := ends_checkForError_iff.mp checked
      cases same
  · rintro ⟨buf, rest, rfl, ends⟩
    exact .inl ⟨_, _, rest, rfl, ends_checkForError_iff.mpr ⟨buf, rfl, rfl⟩, ends⟩

/-- The operations of `ListChannels`. -/
def IsListing : Op → Prop
  | .canInitializeLibrary | .canGetNumberOfChannels | .canGetChannelData _ _ | .addInterface _ _
  | .canGetErrorText _ => True
  | .writeLine line => ∃ cmd buf stat, line = failed cmd buf stat ∧
    (cmd = "canGetNumberOfChannels" ∨ cmd = "canGetChannelData")
  | _ => False

/-- The operations of `CheckForError`, where those of the report are allowed. -/
theorem checkForError_only {allowed : Op → Prop} {stat : CanStatus} {cmd : String}
    (text : allowed (.canGetErrorText stat)) (line : ∀ buf, allowed (.writeLine (failed cmd buf stat))) :
    (checkForError stat cmd).Only allowed := by
  rw [checkForError]
  split
  · trivial
  · exact ⟨text, fun buf => ⟨line buf, fun _ => trivial⟩⟩

theorem listRounds_only (rounds : ℕ) (i : Int32) : (listRounds rounds i).Only IsListing := by
  induction rounds generalizing i with
  | zero => trivial
  | succ rounds ih =>
    refine ⟨trivial, fun _ =>
      (checkForError_only trivial fun buf => ⟨_, buf, _, rfl, .inr rfl⟩).bind fun _ => ?_⟩
    split
    · trivial
    · exact ⟨trivial, fun _ => ih _⟩

theorem listChannels_only : listChannels.Only IsListing := by
  refine ⟨trivial, fun _ => (checkForError_only trivial fun buf => ⟨_, buf, _, rfl, .inl rfl⟩).bind fun _ => ?_⟩
  split
  · trivial
  · exact listRounds_only _ _

theorem listRounds_returns {rounds : ℕ} {i : Int32} {outcome : Except Exception Unit}
    (ends : Ends (listRounds rounds i) tape outcome) : outcome = .ok () := by
  induction rounds generalizing i tape with
  | zero => exact (ends_ret_iff.mp ends).2
  | succ rounds ih =>
    obtain ⟨_, _, -, answered⟩ := ends_perform_iff.mp ends
    obtain ⟨_, _, -, checked⟩ := ends_checkForError_bind_iff.mp answered
    split at checked
    · exact (ends_ret_iff.mp checked).2
    · obtain ⟨_, _, -, added⟩ := ends_perform_iff.mp checked
      exact ih added

theorem listChannels_returns {outcome : Except Exception Unit} (ends : Ends listChannels tape outcome) :
    outcome = .ok () := by
  obtain ⟨_, _, -, answered⟩ := ends_perform_iff.mp ends
  obtain ⟨_, _, -, checked⟩ := ends_checkForError_bind_iff.mp answered
  split at checked
  · exact (ends_ret_iff.mp checked).2
  · exact listRounds_returns checked

section Readings

variable (cmd : String) (stat : CanStatus) (buf : String)

@[simp] theorem opened_report : opened (report cmd stat buf) = [] := by
  rw [report]
  split <;> rfl

@[simp] theorem statuses_report : statuses (report cmd stat buf) = [] := by
  rw [report]
  split <;> rfl

variable {listing : List Performed}

theorem opened_of_isListing (isListing : ∀ event ∈ listing, IsListing event.1) : opened listing = [] := by
  apply List.filterMap_eq_nil_iff.mpr
  rintro ⟨op, answer⟩ member
  cases op <;> first | rfl | exact (isListing _ member).elim

theorem statuses_of_isListing (isListing : ∀ event ∈ listing, IsListing event.1) :
    statuses listing = [] := by
  apply List.filterMap_eq_nil_iff.mpr
  rintro ⟨op, answer⟩ member
  cases op <;> first | rfl | exact (isListing _ member).elim

end Readings

section FieldAccess

@[simp] theorem Fields.machine_step (event : Performed) : Fields.machine.step o event = o.step event := rfl

@[simp] theorem Fields.run_report {cmd : String} {stat : CanStatus} {buf : String} :
    Fields.machine.Run o (report cmd stat buf) o' ↔ o' = o := by
  rw [report]
  split
  · exact Run.nil_iff
  · simp [Run.cons_iff, Fields.step, eq_comm]

end FieldAccess

/-- What the driver answers to the three calls that open a channel, with the texts it has for them. -/
structure Opening where
  handle : Int32
  setBusParams : CanStatus
  busOn : CanStatus
  texts : String × String × String

def Opening.performed (chanelId baudRate : Int32) (a : Opening) : List Performed :=
  ⟨.canOpenChannel chanelId canOPEN_ACCEPT_VIRTUAL, a.handle⟩ :: ⟨.setHandle a.handle, ()⟩ ::
    ⟨.getHandle, a.handle⟩ :: (report "canOpenChannel" a.handle a.texts.1 ++
    ⟨.getHandle, a.handle⟩ :: ⟨.canSetBusParams a.handle baudRate 0 0 0 0, a.setBusParams⟩ ::
    (report "canSetBusParams" a.setBusParams a.texts.2.1 ++
    ⟨.getHandle, a.handle⟩ :: ⟨.canBusOn a.handle, a.busOn⟩ ::
    (report "canBusOn" a.busOn a.texts.2.2 ++ [⟨.startReader, ()⟩])))

section Opening

variable (answers : Opening) (chanelId baudRate : Int32)

@[simp] theorem opened_performed : opened (answers.performed chanelId baudRate) = [answers.handle] := by
  simp [Opening.performed, opened_cons]

@[simp] theorem statuses_performed : statuses (answers.performed chanelId baudRate) =
    [(.canSetBusParams answers.handle baudRate 0 0 0 0, answers.setBusParams),
      (.canBusOn answers.handle, answers.busOn)] := by
  simp [Opening.performed, statuses_cons]

end Opening

/-- The list has an entry for the channel. -/
def Listed (chanelId : Int32) (interfaces : List (Int32 × String)) : Prop :=
  ¬ (interfaces.find? fun x => x.1 = chanelId).isNone

/-- `Init` lists the channels, and opens the one that was asked for if it is among them. -/
theorem init_cases {outcome : Except Exception Bool} (ends : Ends (init chanelId baudRate) tape outcome)
    (run : Fields.machine.Run o tape o') :
    ∃ listing found, (∀ event ∈ listing, IsListing event.1) ∧
      ((¬ Listed chanelId found ∧ outcome = .ok false ∧ tape = listing ++ [⟨.getInterfaces, found⟩]) ∨
      (Listed chanelId found ∧ outcome = .ok true ∧ ∃ answers : Opening,
        tape = listing ++ ⟨.getInterfaces, found⟩ :: answers.performed chanelId baudRate ∧
          o'.handle = answers.handle)) := by
  simp only [init, call_bind, pure_eq] at ends
  obtain ⟨_, _, rfl, initialized⟩ := ends_perform_iff.mp ends
  rcases ends_bind_iff.mp initialized with ⟨_, listing, _, rfl, listed, rest⟩ | ⟨e, raised, -⟩
  swap
  · cases listChannels_returns raised
  obtain ⟨found, _, rfl, chosen⟩ := ends_perform_iff.mp rest
  refine ⟨⟨.canInitializeLibrary, ()⟩ :: listing, found,
    List.forall_mem_cons.mpr ⟨trivial, listChannels_only.run listed⟩, ?_⟩
  split at chosen
  case isTrue missing =>
    obtain ⟨rfl, rfl⟩ := ends_ret_iff.mp chosen
    exact .inl ⟨not_not.mpr missing, rfl, rfl⟩
  case isFalse present =>
    simp only [ends_perform_iff, ends_checkForError_bind_iff, ends_ret_iff] at chosen
    obtain ⟨handle, _, rfl, _, _, rfl, seen, _, rfl, buf, _, rfl, seen', _, rfl, status, _, rfl, buf', _, rfl,
      seen'', _, rfl, status', _, rfl, buf'', _, rfl, _, _, rfl, rfl, rfl⟩ := chosen
    obtain ⟨_, -, rest⟩ := Run.cons_iff.mp run
    obtain ⟨_, -, rest⟩ := Run.append_iff.mp rest
    obtain ⟨_, -, rest⟩ := Run.cons_iff.mp rest
    simp only [Run.cons_iff, Run.append_iff, Run.nil_iff, Fields.run_report, Fields.machine_step, Fields.step,
      Option.some.injEq, Option.ite_none_right_eq_some, existsAndEq, and_true, true_and] at rest
    -- what was loaded from the field is the handle stored there
    obtain ⟨rfl, rfl, rfl, rfl⟩ := rest
    exact .inr ⟨present, rfl, ⟨_, status, status', buf, buf', buf''⟩, rfl, rfl⟩

/-- An `Init` that returns true leaves the handle it was given in the field. -/
theorem opened_of_init (ends : Ends (init chanelId baudRate) tape (.ok true))
    (run : Fields.machine.Run o tape o') : opened tape = [o'.handle] := by
  obtain ⟨listing, found, isListing, ⟨-, same, -⟩ | ⟨-, -, answers, rfl, stored⟩⟩ := init_cases ends run
  · cases same
  · simp [opened_of_isListing isListing, opened_cons, stored]

/-- `Stop` comes to its end and cancels whatever the driver answers. -/
theorem stop_ends {outcome : Except Exception Unit} (ends : Ends stop tape outcome) :
    outcome = .ok () ∧ ∃ handle handle' busOff close buf buf',
      tape = ⟨.getHandle, handle⟩ :: ⟨.canBusOff handle, busOff⟩ :: (report "canBusOff" busOff buf ++
        ⟨.getHandle, handle'⟩ :: ⟨.canClose handle', close⟩ :: (report "canClose" close buf' ++
        [⟨.cancel, ()⟩])) := by
  simp only [stop, call_bind, ends_perform_iff, ends_checkForError_bind_iff, ends_call_iff] at ends
  obtain ⟨handle, _, rfl, busOff, _, rfl, buf, _, rfl, handle', _, rfl, close, _, rfl, buf', _, rfl, _, rfl, rfl⟩ :=
    ends
  exact ⟨rfl, handle, handle', busOff, close, buf, buf', rfl⟩

/-- It acts on the handle in the field. -/
theorem stop_operations {outcome : Except Exception Unit} (ends : Ends stop tape outcome)
    (run : Fields.machine.Run o tape o') :
    .canBusOff o.handle ∈ operations tape ∧ .canClose o.handle ∈ operations tape ∧
      .cancel ∈ operations tape ∧ opened tape = [] := by
  obtain ⟨-, handle, handle', busOff, close, buf, buf', rfl⟩ := stop_ends ends
  simp only [Run.cons_iff, Run.append_iff, Run.nil_iff, Fields.run_report, Fields.machine_step, Fields.step,
    Option.some.injEq, Option.ite_none_right_eq_some, existsAndEq, and_true, true_and] at run
  obtain ⟨rfl, rfl, rfl⟩ := run
  simp [opened_cons]

section Operations

/-- The operations of `Init`. -/
def IsOpening : Op → Prop
  | .canBusOff _ | .canClose _ | .cancel | .readKey | .writeCmdMsgRsp _ => False
  | _ => True

theorem IsOpening.uncancelling {op : Op} (opening : IsOpening op) : op ≠ .cancel := by
  rintro rfl
  exact opening

theorem IsListing.isOpening {op : Op} (listing : IsListing op) : IsOpening op := by
  cases op <;> trivial

theorem init_only (chanelId baudRate : Int32) : (init chanelId baudRate).Only IsOpening := by
  have reports (stat : CanStatus) (cmd : String) : (checkForError stat cmd).Only IsOpening :=
    checkForError_only trivial fun _ => trivial
  have lists : listChannels.Only IsOpening := listChannels_only.mono fun _ => IsListing.isOpening
  simp only [init, call_bind, pure_eq]
  refine ⟨trivial, fun _ => lists.bind fun _ => ⟨trivial, fun found => ?_⟩⟩
  beta_reduce
  split
  · trivial
  · refine ⟨trivial, fun handle => ⟨trivial, fun _ => ⟨trivial, fun _ => (reports _ _).bind fun _ => ?_⟩⟩⟩
    refine ⟨trivial, fun _ => ⟨trivial, fun status => (reports _ _).bind fun _ => ?_⟩⟩
    refine ⟨trivial, fun _ => ⟨trivial, fun status => (reports _ _).bind fun _ => ?_⟩⟩
    exact ⟨trivial, fun _ => trivial⟩

/-- `Init` starts a reader loop before it returns true. -/
theorem init_marks (chanelId baudRate : Int32) :
    (init chanelId baudRate).Marks (· = .startReader) (· = false) := by
  simp only [init, call_bind, pure_eq]
  refine .inr fun _ => .bind fun _ => .inr fun found => ?_
  beta_reduce
  split
  · exact rfl
  · refine .inr fun handle => .inr fun _ => .inr fun _ => .bind fun _ => ?_
    refine .inr fun _ => .inr fun status => .bind fun _ => ?_
    exact .inr fun _ => .inr fun status => .bind fun _ => .inl rfl

/-- And it does so last. -/
theorem init_finishes (chanelId baudRate : Int32) :
    (init chanelId baudRate).Finishes (· = .startReader) true := by
  have reports (stat : CanStatus) (cmd : String) : (checkForError stat cmd).Only (¬ · = .startReader) :=
    checkForError_only nofun nofun
  have lists : listChannels.Only (¬ · = .startReader) := listChannels_only.mono fun op listing start => by
    rw [start] at listing
    exact listing
  simp only [init, call_bind, pure_eq]
  refine ⟨nofun, fun _ => .bind lists fun _ => ⟨nofun, fun found => ?_⟩⟩
  beta_reduce
  split
  · trivial
  · refine ⟨nofun, fun handle => ⟨nofun, fun _ => ⟨nofun, fun _ => .bind (reports _ _) fun _ => ?_⟩⟩⟩
    refine ⟨nofun, fun _ => ⟨nofun, fun status => .bind (reports _ _) fun _ => ?_⟩⟩
    refine ⟨nofun, fun _ => ⟨nofun, fun status => .bind (reports _ _) fun _ => ?_⟩⟩
    exact ⟨fun _ _ => rfl, fun _ => trivial⟩

/-- The operations of `Stop`. -/
def IsStopping : Op → Prop
  | .getHandle | .canBusOff _ | .canClose _ | .cancel | .canGetErrorText _ | .writeLine _ => True
  | _ => False

/-- Its operations are allowed where those of its reports are. -/
theorem stop_only {allowed : Op → Prop} (loads : allowed .getHandle)
    (offBus : ∀ handle, allowed (.canBusOff handle)) (closes : ∀ handle, allowed (.canClose handle))
    (cancels : allowed .cancel) (reports : ∀ stat cmd, (checkForError stat cmd).Only allowed) :
    stop.Only allowed := by
  refine ⟨loads, fun _ => ⟨offBus _, fun _ => (reports _ _).bind fun _ => ?_⟩⟩
  exact ⟨loads, fun _ => ⟨closes _, fun _ => (reports _ _).bind fun _ => ⟨cancels, fun _ => trivial⟩⟩⟩

theorem stop_stopping : stop.Only IsStopping :=
  stop_only trivial (fun _ => trivial) (fun _ => trivial) trivial fun _ _ =>
    checkForError_only trivial fun _ => trivial

/-- `Stop` does not return before it has cancelled. -/
theorem stop_marks : stop.Marks (· = .cancel) fun _ => False := by
  simp only [stop, call_bind]
  refine .inr fun _ => .inr fun _ => .bind fun _ => ?_
  exact .inr fun _ => .inr fun _ => .bind fun _ => Or.inl rfl

/-- Running on the fields of an object, the code closes no other handle than the one in its field. -/
def ClosesHandle {α : Type} : Code α → Fields → Prop
  | .ret _, _ => True
  | .raise _, _ => True
  | .perform op next, o => (∀ handle, op = .canClose handle → handle = o.handle) ∧
    ∀ answer o', o.step ⟨op, answer⟩ = some o' → ClosesHandle (next answer) o'

theorem ClosesHandle.step {α : Type} {p q : Code α} {event : Performed} (closes : ClosesHandle p o)
    (moves : (Interaction.machine _ _ _).step p event = some q) (acts : o.step event = some o') :
    (∀ handle, event.1 = .canClose handle → handle = o.handle) ∧ ClosesHandle q o' := by
  cases p with
  | ret value => cases moves
  | raise e => cases moves
  | perform op next =>
    obtain ⟨answer, rfl, rfl⟩ := step_perform_iff.mp moves
    exact ⟨closes.1, closes.2 answer o' acts⟩

theorem closesHandle_checked {α : Type} {cmd : String} {stat : CanStatus} {f : Bool → Code α}
    (rest : ∀ value, ClosesHandle (f value) o) : ClosesHandle (checkForError stat cmd >>= f) o := by
  rw [checkForError]
  split
  · exact rest false
  · refine ⟨nofun, fun buf o₁ text => ⟨nofun, fun _ o₂ line => ?_⟩⟩
    cases text
    cases line
    exact rest true

theorem stop_closesHandle (o : Fields) : ClosesHandle stop o := by
  simp only [stop, call_bind]
  refine ⟨nofun, fun seen o₁ loads => ⟨nofun, fun _ o₂ offBus => closesHandle_checked fun _ => ?_⟩⟩
  refine ⟨nofun, fun seen' o₃ loads' => ⟨?_, fun _ o₄ closes => closesHandle_checked fun _ => ?_⟩⟩
  · rintro handle same
    cases same
    obtain ⟨rfl, same⟩ := Option.ite_none_right_eq_some.mp loads'
    cases same
    rfl
  · exact ⟨nofun, fun _ _ _ => trivial⟩

end Operations

section OneChannel

/-- The listing of an interface with one channel. -/
def oneChannel : List Performed :=
  [⟨.canInitializeLibrary, ()⟩, ⟨.canGetNumberOfChannels, (canOK, 1)⟩,
    ⟨.canGetChannelData 0 canCHANNELDATA_DEVDESCR_ASCII, (canOK, "Leaf")⟩, ⟨.addInterface 0 "Leaf", ()⟩,
    ⟨.getInterfaces, [(0, "Leaf")]⟩]

variable (answers : Opening) (baudRate : Int32)

theorem checked {α : Type} {cmd buf : String} {stat : CanStatus} {f : Bool → Code α}
    {outcome : Except Exception α} (ends : Ends (f (decide (stat ≠ canOK))) tape outcome) :
    Ends (checkForError stat cmd >>= f) (report cmd stat buf ++ tape) outcome :=
  ends_checkForError_bind_iff.mpr ⟨buf, tape, rfl, ends⟩

/-- Opening the one channel, whatever the driver answers to the attempt. -/
theorem oneChannel_ends :
    Ends (init 0 baudRate) (oneChannel ++ answers.performed 0 baudRate) (.ok true) := by
  have listed : Ends listChannels [⟨.canGetNumberOfChannels, (canOK, 1)⟩,
      ⟨.canGetChannelData 0 canCHANNELDATA_DEVDESCR_ASCII, (canOK, "Leaf")⟩,
      ⟨.addInterface 0 "Leaf", ()⟩] (.ok ()) :=
    .perform (.perform (.perform (ends_ret_iff.mpr ⟨rfl, rfl⟩)))
  simp only [init, call_bind, pure_eq]
  refine .perform (listed.bind (.perform ?_))
  exact .perform <| .perform <| .perform <| checked <| .perform <| .perform <| checked <| .perform <|
    .perform <| checked <| .perform <| ends_ret_iff.mpr ⟨rfl, rfl⟩

theorem oneChannel_run (cancelled : Bool) :
    Fields.machine.Run { cancelled } (oneChannel ++ answers.performed 0 baudRate)
      { interfaces := [(0, "Leaf")], handle := answers.handle, cancelled } := by
  simp [oneChannel, Opening.performed, Run.cons_iff, Run.append_iff, Fields.step]

/-- A `Stop` whose driver calls succeed. -/
def stopping (handle : Int32) : List Performed :=
  [⟨.getHandle, handle⟩, ⟨.canBusOff handle, canOK⟩, ⟨.getHandle, handle⟩, ⟨.canClose handle, canOK⟩,
    ⟨.cancel, ()⟩]

theorem stopping_ends (handle : Int32) : Ends stop (stopping handle) (.ok ()) :=
  .perform (.perform (.perform (.perform (.perform (ends_ret_iff.mpr ⟨rfl, rfl⟩)))))

end OneChannel

end KvaserInterface

end OtaCli.Model
