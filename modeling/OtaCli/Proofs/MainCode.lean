import OtaCli.Machine.Contract
import OtaCli.Model.Process
import OtaCli.Proofs.Release

/-! # `Main` in parts

`Main` is `Init` and what follows it: the list of the channels that are there, the scan, or an update and the
end of the program. Each part keeps to some of the operations, and only an update does what the device could
notice.
-/

namespace OtaCli.Proofs.MainCode

open Model Model.Process Interaction Release

section Code

variable (options : CommandLineOptions) (files : String → File)

/-- What `Main` does once the update has returned. -/
def finish (updater : UpdaterInterface) : Code Unit := do
  Code.call (.writeLine (.text "upload complete"))
  let _ ← updater.verify.toCode
  Code.call (.writeLine (.text "waiting for key"))
  Interaction.ended (← Code.call .readKey)
  KvaserInterface.stop
  Code.call (.writeLine (.text "Program End"))

/-- What `Main` does when the channel is not there. -/
def unavailable : Code Unit := do
  Code.call (.writeLine (.text "sorry, but the selected device is not available"))
  Code.call (.writeLine (.text "available devices are:"))
  let interfaces ← Code.call .getInterfaces
  interfaces.forM fun kInterface =>
    Code.call (.writeLine (.format "Found channel: \x7b0\x7d \x7b1\x7d"
      [.int kInterface.1, .string kInterface.2]))
  return

def scanning : Code Unit := do
  Code.call (.writeLine (.text "Scanning started, please wait..."))
  KvaserInterface.scanForDevices.forM fun device => Code.call (.writeLine (.text device.toText))
  return

/-- The update that was asked for. -/
def updating : Client Bool := (chosen options files).update options.targetDevice

/-- Neither updater has anything to verify. -/
theorem verify_toCode : (chosen options files).verify.toCode = .ret true := by
  rw [chosen]
  split <;> rfl

/-- What `Main` does after `Init`. -/
def afterInit (initialized : Bool) : Code Unit :=
  if initialized then
    if options.scan then scanning
    else (updating options files).toCode >>= fun _ => finish (chosen options files)
  else unavailable

/-- What the update comes to: nothing online, and otherwise the flash of the file. -/
def plan : Transcript Bool :=
  if options.onlineMode then ⟨[], [], .ok true⟩
  else FlashTranscript.planned options.targetDevice (files options.binary)

theorem updating_performs : (updating options files).Performs (plan options files) := by
  rw [updating, chosen, plan]
  split
  · exact Client.performs_ret_iff.mpr rfl
  · exact FlashTranscript.update_performs _ _

theorem main_eq : Program.main (some options) files =
    KvaserInterface.init options.interface KvaserInterface.canBITRATE_500K >>= afterInit options files := by
  simp only [Program.main]
  congr 1
  funext initialized
  cases initialized with
  | false => rfl
  | true => cases scan : options.scan <;> simp only [afterInit, scan] <;> rfl

end Code

section Silence

/-- Nothing that the interface or its device would notice, nor the news that the upload is complete. -/
def IsSilent : Op → Prop
  | .writeLine line => line ≠ .text "upload complete" ∧ ∀ value, line ≠ .number value
  | .writeCmdMsgRsp _ => False
  | _ => True

/-- The operations before the update, and those after it. -/
def IsBefore (op : Op) : Prop := IsSilent op ∧ op ≠ .cancel

def IsAfter (op : Op) : Prop := IsSilent op ∧ op ≠ .startReader

def IsLeaving (op : Op) : Prop := IsSilent op ∧ op ≠ .startReader ∧ op ≠ .cancel

theorem IsLeaving.line {line : Line} (incomplete : line ≠ .text "upload complete")
    (other : ∀ value, line ≠ .number value) : IsLeaving (.writeLine line) :=
  ⟨⟨incomplete, other⟩, nofun, nofun⟩

theorem IsSilent.uncalled {op : Op} (silent : IsSilent op) : isCall op = false := by
  cases op <;> first | rfl | exact silent.elim

theorem IsSilent.unseen {event : Performed} (silent : IsSilent event.1) :
    (Process.Event.main event).interface? = none := by
  rcases event with ⟨op, answer⟩
  cases op
  case writeLine line =>
    cases line with
    | number value => exact absurd rfl (silent.2 value)
    | _ => rfl
  all_goals rfl

theorem IsSilent.incomplete {event : Performed} (silent : IsSilent event.1) :
    event ≠ ⟨.writeLine (.text "upload complete"), ()⟩ := by
  rintro rfl
  exact silent.1 rfl

theorem startReader_of_ne {readers : List ReaderPc} {op : Op} (other : op ≠ .startReader) :
    Lifetime.startReader readers op = readers := if_neg other

theorem failed_leaving (cmd buf : String) (stat : CanStatus) :
    IsLeaving (.writeLine (KvaserInterface.failed cmd buf stat)) :=
  .line (by simp [KvaserInterface.failed]) (by simp [KvaserInterface.failed])

theorem checkForError_silent (stat : CanStatus) (cmd : String) {allowed : Op → Prop}
    (wider : ∀ op, IsLeaving op → allowed op) : (KvaserInterface.checkForError stat cmd).Only allowed := by
  apply KvaserInterface.checkForError_only
  · exact wider _ ⟨trivial, nofun, nofun⟩
  · exact fun buf => wider _ (failed_leaving cmd buf stat)

private theorem init_silent (chanelId baudRate : Int32) : (KvaserInterface.init chanelId baudRate).Only IsSilent := by
  have reports (stat : CanStatus) (cmd : String) : (KvaserInterface.checkForError stat cmd).Only IsSilent :=
    checkForError_silent stat cmd fun op leaving => leaving.1
  have lists : KvaserInterface.listChannels.Only IsSilent := by
    apply KvaserInterface.listChannels_only.mono
    intro op listing
    cases op
    case writeLine line =>
      obtain ⟨cmd, buf, stat, rfl, -⟩ := listing
      exact (failed_leaving cmd buf stat).1
    all_goals first | exact listing.elim | trivial
  simp only [KvaserInterface.init, call_bind, pure_eq]
  refine ⟨trivial, fun _ => lists.bind fun _ => ⟨trivial, fun found => ?_⟩⟩
  beta_reduce
  split
  · trivial
  · refine ⟨trivial, fun handle => ⟨trivial, fun _ => ⟨trivial, fun _ => (reports _ _).bind fun _ => ?_⟩⟩⟩
    refine ⟨trivial, fun _ => ⟨trivial, fun status => (reports _ _).bind fun _ => ?_⟩⟩
    refine ⟨trivial, fun _ => ⟨trivial, fun status => (reports _ _).bind fun _ => ?_⟩⟩
    exact ⟨trivial, fun _ => trivial⟩

theorem init_before (chanelId baudRate : Int32) : (KvaserInterface.init chanelId baudRate).Only IsBefore := by
  apply ((init_silent chanelId baudRate).and (KvaserInterface.init_only chanelId baudRate)).mono
  rintro op ⟨silent, opening⟩
  exact ⟨silent, opening.uncancelling⟩

private theorem stop_after : KvaserInterface.stop.Only IsAfter := by
  have plain {op : Op} (silent : IsSilent op) (other : op ≠ .startReader) : IsAfter op := ⟨silent, other⟩
  apply KvaserInterface.stop_only
  · exact plain trivial nofun
  · exact fun handle => plain trivial nofun
  · exact fun handle => plain trivial nofun
  · exact plain trivial nofun
  · exact fun stat cmd => checkForError_silent stat cmd fun op leaving => ⟨leaving.1, leaving.2.1⟩

/-- The operations of the list of the channels that are there. -/
theorem unavailable_only {allowed : Op → Prop}
    (regrets : allowed (.writeLine (.text "sorry, but the selected device is not available")))
    (announces : allowed (.writeLine (.text "available devices are:"))) (looks : allowed .getInterfaces)
    (found : ∀ args, allowed (.writeLine (.format "Found channel: \x7b0\x7d \x7b1\x7d" args))) :
    unavailable.Only allowed := by
  have lists (interfaces : List (Int32 × String)) : (interfaces.forM fun kInterface =>
      Code.call (.writeLine (.format "Found channel: \x7b0\x7d \x7b1\x7d"
        [.int kInterface.1, .string kInterface.2]))).Only allowed := by
    induction interfaces with
    | nil => trivial
    | cons kInterface rest ih => exact ⟨found _, fun _ => ih⟩
  exact ⟨regrets, fun _ => ⟨announces, fun _ => ⟨looks, fun seen => (lists seen).bind fun _ => trivial⟩⟩⟩

theorem unavailable_leaving : unavailable.Only IsLeaving :=
  unavailable_only (.line (by decide) nofun) (.line (by decide) nofun) ⟨trivial, nofun, nofun⟩
    fun _ => .line nofun nofun

theorem scanning_leaving : scanning.Only IsLeaving := ⟨.line (by decide) nofun, fun _ => trivial⟩

theorem checkForError_returns (stat : CanStatus) (cmd : String) :
    (KvaserInterface.checkForError stat cmd).Returns := by
  rw [KvaserInterface.checkForError]
  split
  · trivial
  · exact fun _ _ => trivial

/-- What holds of the end of `Main`: no number is printed and nothing is written, and it does not return before
the loop is told to end. -/
structure Ending (p : Code Unit) (cancelled : Bool) : Prop where
  only : p.Only IsAfter
  marks : cancelled = true ∨ p.Marks (· = .cancel) fun _ => False

/-- After its first line, which tells of the upload, the rest of `Main` is such an end. -/
theorem finish_after (options : CommandLineOptions) (files : String → File) :
    ∃ rest : Code Unit, finish (chosen options files) =
      .perform (.writeLine (.text "upload complete")) (fun _ => rest) ∧ Ending rest false := by
  have text (value : String) (other : value ≠ "upload complete") : IsAfter (.writeLine (.text value)) :=
    ⟨⟨fun same => other (Line.text.inj same), nofun⟩, nofun⟩
  refine ⟨_, by simp only [finish, verify_toCode, call_bind, ret_bind]; rfl, ?_, .inr ?_⟩
  · refine ⟨text _ (by decide), fun _ => ⟨⟨trivial, nofun⟩, fun key => (Only.ended key).bind fun _ => ?_⟩⟩
    exact stop_after.bind fun _ => ⟨text _ (by decide), fun _ => trivial⟩
  · refine .inr fun _ => .inr fun key => ?_
    cases key with
    | error e => trivial
    | ok _ => exact KvaserInterface.stop_marks.bind_left

end Silence

end OtaCli.Proofs.MainCode
