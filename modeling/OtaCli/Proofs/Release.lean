import OtaCli.Model.LifecycleTape
import OtaCli.Model.Program
import OtaCli.Proofs.FlashTranscript

/-! # Whether `Main` releases what it opened

`Main` calls `Stop` in one place, at the end of an update that has returned. A scan leaves before it, and so
does an exception out of `Update`: when the file cannot be read, or its last chunk is short. Where there is no
console to read a key from, an exception out of `ReadKey` comes before it too.
-/

namespace OtaCli.Proofs.Release

open Model Model.KvaserInterface Interaction LabeledMachine FlashTranscript

variable {options : CommandLineOptions} {files : String → File} {tape first rest : List Performed}
  {outcome : Except Exception Unit} {o o' : Fields}

/-- `Init` has been called and has returned true. -/
def Initialized (options : CommandLineOptions) (tape : List Performed) : Prop :=
  ∃ first, first <+: tape ∧ Ends (init options.interface canBITRATE_500K) first (.ok true)

/-- `Stop` has been called: the channel that was opened was taken off the bus and closed, and the reader
loop was told to stop. -/
structure Released (tape : List Performed) : Prop where
  stopped : ∃ during, during <:+: tape ∧ Ends stop during (.ok ())
  offBus : ∀ handle ∈ opened tape, .canBusOff handle ∈ operations tape
  closed : ∀ handle ∈ opened tape, .canClose handle ∈ operations tape
  told : .cancel ∈ operations tape

/-- A key has been read. -/
def KeyRead (tape : List Performed) : Prop := ⟨.readKey, .ok ()⟩ ∈ tape

/-- `ReadKey` has thrown. -/
def KeyThrown (tape : List Performed) : Prop := ∃ e, ⟨.readKey, .error e⟩ ∈ tape

/-- The file can be read, and its last chunk is full. -/
def Flashable (file : File) : Prop :=
  ∃ content, FileUpdater.fileToByteArray file = .ok content ∧ 4 ∣ content.length

section Updater

/-- What an updater does in the main thread. -/
def IsUpdating : Op → Prop
  | .writeLine _ | .writeCmdMsgRsp _ => True
  | _ => False

/-- An updater comes to the end of its transcript. -/
theorem toCode_ends {α : Type} {client : Client α} {outcome : Except Exception α}
    (ends : Ends client.toCode tape outcome) :
    (∀ event ∈ tape, IsUpdating event.1) ∧ ∃ answers, (client.transcript answers).result = outcome := by
  induction client generalizing tape with
  | ret value =>
    obtain ⟨rfl, rfl⟩ := ends_ret_iff.mp ends
    exact ⟨by simp, [], rfl⟩
  | raise e =>
    obtain ⟨rfl, rfl⟩ := ends_raise_iff.mp ends
    exact ⟨by simp, [], rfl⟩
  | writeLine value next ih =>
    obtain ⟨_, rest, rfl, later⟩ := ends_perform_iff.mp ends
    obtain ⟨updating, answers, same⟩ := ih later
    exact ⟨List.forall_mem_cons.mpr ⟨trivial, updating⟩, answers, same⟩
  | writeCmdMsgRsp cmd next ih =>
    obtain ⟨response, rest, rfl, later⟩ := ends_perform_iff.mp ends
    obtain ⟨updating, answers, same⟩ := ih response later
    refine ⟨List.forall_mem_cons.mpr ⟨trivial, updating⟩, response :: answers, ?_⟩
    exact same

private theorem planned_result_iff (file : File) (targetDeviceId : UInt8) :
    (∃ value, (planned targetDeviceId file).result = .ok value) ↔ Flashable file := by
  simp only [planned, Flashable]
  cases read : FileUpdater.fileToByteArray file with
  | error e => simp
  | ok content =>
    by_cases multiple : 4 ∣ content.length <;> simp [FileUpdater.flashTranscript, multiple]

/-- The updater which `Main` chooses. -/
def chosen (options : CommandLineOptions) (files : String → File) : UpdaterInterface :=
  if options.onlineMode then onlineUpdater else fileUpdater (files options.binary)

/-- Whether the update returns or raises depends on the file alone, and not on the device. -/
theorem update_returns_iff {result : Except Exception Bool}
    (ends : Ends ((chosen options files).update options.targetDevice).toCode tape result) :
    (∃ value, result = .ok value) ↔ options.onlineMode = true ∨ Flashable (files options.binary) := by
  obtain ⟨-, answers, rfl⟩ := toCode_ends ends
  cases online : options.onlineMode with
  | true =>
    have returned : (chosen options files).update options.targetDevice = .ret true := by
      rw [chosen, if_pos online]
      rfl
    simp [returned, Client.transcript]
  | false =>
    have performs := update_performs options.targetDevice (files options.binary)
    have same : (chosen options files).update options.targetDevice =
        FileUpdater.update (files options.binary) options.targetDevice := by
      rw [chosen, if_neg (by simp [online])]
      rfl
    rw [same, performs answers, planned_result_iff]
    simp

end Updater

/-- What `Main` does once the update has returned, with what `Stop` does in it. -/
def closing (during : List Performed) : List Performed :=
  ⟨.writeLine (.text "upload complete"), ()⟩ :: ⟨.writeLine (.text "waiting for key"), ()⟩ ::
    ⟨.readKey, .ok ()⟩ :: (during ++ [⟨.writeLine (.text "Program End"), ()⟩])

/-- What it does where `ReadKey` throws. -/
def breakingOff (e : Exception) : List Performed :=
  [⟨.writeLine (.text "upload complete"), ()⟩, ⟨.writeLine (.text "waiting for key"), ()⟩,
    ⟨.readKey, .error e⟩]

/-- The ways to leave `Main` after an `Init` that has returned true: what is done then, and the outcome. -/
inductive Left (options : CommandLineOptions) (files : String → File) :
    List Performed → Except Exception Unit → Prop
  | scanned {rest : List Performed} (scan : options.scan = true) (isUpdating : ∀ event ∈ rest, IsUpdating event.1) :
      Left options files rest (.ok ())
  | raised {updating : List Performed} {e : Exception} (scan : options.scan = false)
      (updated : Ends ((chosen options files).update options.targetDevice).toCode updating (.error e)) :
      Left options files updating (.error e)
  | thrown {updating : List Performed} {value : Bool} {e : Exception} (scan : options.scan = false)
      (updated : Ends ((chosen options files).update options.targetDevice).toCode updating (.ok value)) :
      Left options files (updating ++ breakingOff e) (.error e)
  | closed {updating during : List Performed} {value : Bool} (scan : options.scan = false)
      (updated : Ends ((chosen options files).update options.targetDevice).toCode updating (.ok value))
      (stopped : Ends stop during (.ok ())) : Left options files (updating ++ closing during) (.ok ())

theorem main_cases (ends : Ends (Program.main (some options) files) tape outcome)
    (initialized : Initialized options tape) :
    ∃ first rest, tape = first ++ rest ∧ Ends (init options.interface canBITRATE_500K) first (.ok true) ∧
      Left options files rest outcome := by
  simp only [Program.main, call_bind, pure_eq] at ends
  obtain ⟨begun, within, returned⟩ := initialized
  rcases ends_bind_iff.mp ends with ⟨value, first, rest, rfl, inits, later⟩ | ⟨e, raised, -⟩
  swap
  · cases (returned.unique raised within List.prefix_rfl).2
  obtain ⟨rfl, same⟩ := returned.unique inits within (List.prefix_append _ _)
  obtain rfl := Except.ok.inj same
  refine ⟨begun, rest, rfl, inits, ?_⟩
  simp only [Bool.not_true, Bool.false_eq_true, if_false] at later
  cases scan : options.scan with
  | true =>
    rw [scan, if_pos rfl] at later
    obtain ⟨_, _, rfl, listed⟩ := ends_perform_iff.mp later
    obtain ⟨rfl, rfl⟩ := ends_ret_iff.mp listed
    exact .scanned scan (by simp [IsUpdating])
  | false =>
    rw [scan, if_neg (by simp)] at later
    rcases ends_bind_iff.mp later with ⟨value, updating, _, rfl, updated, after⟩ | ⟨e, updated, rfl⟩
    · have verified : (chosen options files).verify.toCode = .ret true := by
        rw [chosen]
        split <;> rfl
      change Ends (.perform _ fun _ => (chosen options files).verify.toCode >>= _) _ _ at after
      simp only [verified, ret_bind, ends_perform_iff] at after
      obtain ⟨_, _, rfl, _, _, rfl, key, _, rfl, last⟩ := after
      cases key with
      | error e =>
        obtain ⟨rfl, rfl⟩ := ends_raise_iff.mp last
        exact .thrown scan updated
      | ok _ =>
        change Ends (stop >>= fun _ => Code.call (.writeLine (.text "Program End"))) _ _ at last
        rcases ends_bind_iff.mp last with ⟨_, during, _, rfl, stopped, printed⟩ | ⟨e, raised, -⟩
        · obtain ⟨_, rfl, rfl⟩ := ends_call_iff.mp printed
          exact .closed scan updated stopped
        · cases (stop_ends raised).1
    · exact .raised scan updated

private theorem uncancelled_of_isUpdating {op : Op} (updating : IsUpdating op) : op ≠ .cancel := by
  rintro rfl
  exact updating

private theorem opened_of_isUpdating {updating : List Performed}
    (isUpdating : ∀ event ∈ updating, IsUpdating event.1) : opened updating = [] := by
  apply List.filterMap_eq_nil_iff.mpr
  rintro ⟨op, answer⟩ member
  cases op <;> first | rfl | exact (isUpdating _ member).elim

/-- An updater does not touch the fields. -/
private theorem fields_of_isUpdating {updating : List Performed}
    (isUpdating : ∀ event ∈ updating, IsUpdating event.1) (run : Fields.machine.Run o updating o') : o' = o := by
  induction updating generalizing o with
  | nil => exact Run.nil_iff.mp run
  | cons event rest ih =>
    obtain ⟨here, later⟩ := List.forall_mem_cons.mp isUpdating
    obtain ⟨middle, stepped, remaining⟩ := Run.cons_iff.mp run
    have still : o.step event = some o := by
      rcases event with ⟨op, answer⟩
      cases op <;> first | rfl | exact here.elim
    obtain rfl := Option.some.inj (stepped.symm.trans still)
    exact ih later remaining

/-- Neither `Init` nor an updater cancels anything. -/
theorem not_cancelled_of_isUpdating {chanelId : Int32} {updating : List Performed}
    (inits : Ends (init chanelId canBITRATE_500K) first (.ok true))
    (isUpdating : ∀ event ∈ updating, IsUpdating event.1) : .cancel ∉ operations (first ++ updating) := by
  intro told
  obtain ⟨event, member, cancels⟩ := List.mem_map.mp told
  obtain earlier | later := List.mem_append.mp member
  · exact ((init_only _ _).run inits event earlier).uncancelling cancels
  · exact uncancelled_of_isUpdating (isUpdating event later) cancels

/-- Without a cancellation nothing has been released. -/
theorem not_released (uncancelled : .cancel ∉ operations tape) : ¬ Released tape :=
  fun released => uncancelled released.told

/-- `Stop` finds the handle in the field that `Init` has left there. -/
theorem released_of_stop {updating during : List Performed}
    (inits : Ends (init options.interface canBITRATE_500K) first (.ok true))
    (isUpdating : ∀ event ∈ updating, IsUpdating event.1) (stopped : Ends stop during (.ok ()))
    (run : Fields.machine.Run o (first ++ (updating ++ closing during)) o') :
    Released (first ++ (updating ++ closing during)) := by
  obtain ⟨o₁, initRun, later⟩ := Run.append_iff.mp run
  obtain ⟨o₂, updateRun, after⟩ := Run.append_iff.mp later
  obtain rfl := fields_of_isUpdating isUpdating updateRun
  simp only [closing, Run.cons_iff, Run.append_iff, Fields.machine_step, Fields.step, Option.some.injEq,
    existsAndEq, true_and] at after
  obtain ⟨o₃, stopRun, -⟩ := after
  obtain ⟨offBus, closed, told, nothing⟩ := stop_operations stopped stopRun
  have handles : opened (first ++ (updating ++ closing during)) = [o₂.handle] := by
    simp [closing, opened_of_init inits initRun, opened_of_isUpdating isUpdating, opened_cons, nothing]
  have within : during <:+: first ++ (updating ++ closing during) := by
    refine List.IsInfix.trans ?_ (List.suffix_append first _).isInfix
    refine List.IsInfix.trans ?_ (List.suffix_append updating _).isInfix
    exact ⟨[_, _, _], [_], rfl⟩
  have performed {op : Op} (member : op ∈ operations during) :
      op ∈ operations (first ++ (updating ++ closing during)) := by
    simp [closing, member]
  refine ⟨⟨during, within, stopped⟩, ?_, ?_, performed told⟩
  · intro handle member
    rw [handles, List.mem_singleton] at member
    rw [member]
    exact performed offBus
  · intro handle member
    rw [handles, List.mem_singleton] at member
    rw [member]
    exact performed closed

/-- Where the update has returned and `ReadKey` throws, nothing is released. -/
private theorem not_released_of_breakingOff {updating : List Performed} {e : Exception}
    (inits : Ends (init options.interface canBITRATE_500K) first (.ok true))
    (isUpdating : ∀ event ∈ updating, IsUpdating event.1) :
    ¬ Released (first ++ (updating ++ breakingOff e)) := by
  have uncancelled := not_cancelled_of_isUpdating inits isUpdating
  refine not_released ?_
  simpa [breakingOff] using uncancelled

section Key

variable {chanelId : Int32} {updating during : List Performed}
  (inits : Ends (init chanelId canBITRATE_500K) first (.ok true))
  (isUpdating : ∀ event ∈ updating, IsUpdating event.1)
include inits isUpdating

/-- Only after an update that has returned does `Main` read a key. -/
theorem not_readKey_of_isUpdating (key : Except Exception Unit) : ⟨.readKey, key⟩ ∉ first ++ updating := by
  intro member
  obtain earlier | later := List.mem_append.mp member
  · exact (init_only _ _).run inits _ earlier
  · exact isUpdating _ later

theorem not_keyThrown_of_closing (stopped : Ends stop during (.ok ())) :
    ¬ KeyThrown (first ++ (updating ++ closing during)) := by
  rintro ⟨e, member⟩
  rw [← List.append_assoc] at member
  obtain earlier | later := List.mem_append.mp member
  · exact not_readKey_of_isUpdating inits isUpdating _ earlier
  · have inStop : ⟨.readKey, .error e⟩ ∈ during := by simpa [closing] using later
    exact stop_stopping.run stopped _ inStop

theorem not_keyRead_of_breakingOff (e : Exception) : ¬ KeyRead (first ++ (updating ++ breakingOff e)) := by
  intro member
  rw [KeyRead, ← List.append_assoc] at member
  obtain earlier | later := List.mem_append.mp member
  · exact not_readKey_of_isUpdating inits isUpdating _ earlier
  · simp [breakingOff] at later

end Key

theorem keyRead_of_closing {updating during : List Performed} : KeyRead (first ++ (updating ++ closing during)) := by
  simp [KeyRead, closing]

theorem keyThrown_of_breakingOff {updating : List Performed} {e : Exception} :
    KeyThrown (first ++ (updating ++ breakingOff e)) := ⟨e, by simp [breakingOff]⟩

/-- When `Main` is left after `Init` has returned true, other than by an exception out of `ReadKey`, it has
released the channel exactly if no scan was asked for and the update has returned: always in online mode, and
for a file exactly if it can be read and its length is a multiple of four. An exception out of `ReadKey` comes
before anything is released. -/
theorem released_iff (ends : Ends (Program.main (some options) files) tape outcome)
    (run : Fields.machine.Run {} tape o) (initialized : Initialized options tape) :
    (¬ KeyThrown tape → (Released tape ↔
      options.scan = false ∧ (options.onlineMode = true ∨ Flashable (files options.binary)))) ∧
    (KeyThrown tape → ¬ Released tape) := by
  obtain ⟨first, rest, rfl, inits, left⟩ := main_cases ends initialized
  cases left with
  | scanned scan isUpdating =>
    have kept := not_released (not_cancelled_of_isUpdating inits isUpdating)
    exact ⟨fun _ => iff_of_false kept (by simp [scan]), fun _ => kept⟩
  | raised scan updated =>
    have kept := not_released (not_cancelled_of_isUpdating inits (toCode_ends updated).1)
    rw [scan, ← update_returns_iff updated]
    exact ⟨fun _ => iff_of_false kept (by simp), fun _ => kept⟩
  | thrown scan updated =>
    refine ⟨fun unthrown => absurd keyThrown_of_breakingOff unthrown, fun _ => ?_⟩
    exact not_released_of_breakingOff inits (toCode_ends updated).1
  | closed scan updated stopped =>
    have isUpdating := (toCode_ends updated).1
    rw [scan, ← update_returns_iff updated]
    refine ⟨fun _ => iff_of_true (released_of_stop inits isUpdating stopped run) (by simp), fun thrown => ?_⟩
    exact absurd thrown (not_keyThrown_of_closing inits isUpdating stopped)

/-- The first channel, opened without an error. -/
def firstOpened : List Performed :=
  oneChannel ++ (⟨0, canOK, canOK, ("", "", "")⟩ : Opening).performed 0 canBITRATE_500K

theorem firstOpened_ends : Ends (init 0 canBITRATE_500K) firstOpened (.ok true) := oneChannel_ends _ _

theorem firstOpened_run : Fields.machine.Run {} firstOpened { interfaces := [(0, "Leaf")], handle := 0 } :=
  oneChannel_run _ _ false

/-- An online update from beginning to end. -/
theorem released_of_online : Released (firstOpened ++ closing (stopping 0)) := by
  have ends : Ends (Program.main (some { interface := 0, onlineMode := true }) fun _ => .ok [])
      (firstOpened ++ closing (stopping 0)) (.ok ()) :=
    firstOpened_ends.bind <| .perform <| .perform <| .perform <| (stopping_ends 0).bind <| .perform <|
      ends_ret_iff.mpr ⟨rfl, rfl⟩
  have closes : Fields.machine.Run { interfaces := [(0, "Leaf")], handle := 0 } (closing (stopping 0))
      ⟨[(0, "Leaf")], 0, true⟩ := by
    simp [closing, stopping, Run.cons_iff, Fields.step]
  have run := firstOpened_run.append closes
  have kept : ¬ KeyThrown (firstOpened ++ ([] ++ closing (stopping 0))) :=
    not_keyThrown_of_closing firstOpened_ends (by simp) (stopping_ends 0)
  exact ((released_iff ends run ⟨firstOpened, List.prefix_append _ _, firstOpened_ends⟩).1 kept).mpr
    ⟨rfl, .inl rfl⟩

/-- A scan leaves the channel open. -/
theorem not_released_of_scan :
    ∃ (tape : List Performed) (o : Fields),
      Ends (Program.main (some { interface := 0, scan := true }) fun _ => .ok []) tape (.ok ()) ∧
      Fields.machine.Run {} tape o ∧ Initialized { interface := 0, scan := true } tape ∧ ¬ Released tape := by
  have ends : Ends (Program.main (some { interface := 0, scan := true }) fun _ => .ok [])
      (firstOpened ++ [⟨.writeLine (.text "Scanning started, please wait..."), ()⟩]) (.ok ()) :=
    firstOpened_ends.bind <| .perform <| ends_ret_iff.mpr ⟨rfl, rfl⟩
  have run := firstOpened_run.append
    (show Fields.machine.Run _ [⟨.writeLine (.text "Scanning started, please wait..."), ()⟩] _ from
      Run.singleton_iff.mpr rfl)
  have initialized : Initialized { interface := 0, scan := true }
      (firstOpened ++ [⟨.writeLine (.text "Scanning started, please wait..."), ()⟩]) :=
    ⟨firstOpened, List.prefix_append _ _, firstOpened_ends⟩
  refine ⟨_, _, ends, run, initialized, not_released ?_⟩
  exact not_cancelled_of_isUpdating firstOpened_ends (by simp [IsUpdating])

end OtaCli.Proofs.Release
