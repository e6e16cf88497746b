import OtaCli.Model.Process

/-! # How failures are reported

`CheckForError` is given the status of a driver call and the name of the call. What the console is to show of
the calls of a thread is a machine of its own: after a call that failed comes the text which the driver has for
its status, and after the text the line with all three, before anything else is called or written. No other line
looks like such a report.
-/

namespace OtaCli.Model

namespace Reporting

open KvaserInterface (failed)

/-- The line was written with the format of `CheckForError`. -/
def isReport : Line → Bool
  | .format format _ => format == "[\x7b0\x7d] \x7b1\x7d: failed, stat=\x7b2\x7d"
  | _ => false

inductive Phase where
  | quiet
  /-- A call has failed. -/
  | failure (cmd : String) (stat : CanStatus)
  /-- The driver has told what the status means. -/
  | explained (cmd buf : String) (stat : CanStatus)

inductive Act where
  /-- A driver call returns its status. -/
  | answer (cmd : String) (stat : CanStatus)
  | errorText (stat : CanStatus) (buf : String)
  | line (line : Line)

/-- After the answer to a call. -/
def after (cmd : String) (stat : CanStatus) : Phase := if stat = canOK then .quiet else .failure cmd stat

def step : Phase → Act → Option Phase
  | .quiet, .answer cmd stat => some (after cmd stat)
  | .quiet, .line line => if isReport line then none else some .quiet
  | .failure cmd stat, .errorText asked buf => if asked = stat then some (.explained cmd buf stat) else none
  | .explained cmd buf stat, .line line => if line = failed cmd buf stat then some .quiet else none
  | _, _ => none

def machine : LabeledMachine Phase Act := ⟨step⟩

/-- The same steps as rules. -/
inductive Step : Phase → Act → Phase → Prop
  | answer (cmd : String) (stat : CanStatus) : Step .quiet (.answer cmd stat) (after cmd stat)
  | line {line : Line} (other : isReport line = false) : Step .quiet (.line line) .quiet
  | errorText {cmd stat} (buf : String) : Step (.failure cmd stat) (.errorText stat buf) (.explained cmd buf stat)
  | report {cmd buf stat} : Step (.explained cmd buf stat) (.line (failed cmd buf stat)) .quiet

variable {phase next : Phase} {act : Act} {acts : List Act}

theorem step_eq_some_iff : machine.step phase act = some next ↔ Step phase act next := by
  constructor
  · intro moved
    match phase, act, moved with
    | .quiet, .answer cmd stat, rfl => exact .answer cmd stat
    | .quiet, .line line, moved =>
      obtain ⟨other, same⟩ := Option.ite_none_left_eq_some.mp moved
      cases same
      exact .line (by simpa using other)
    | .failure cmd stat, .errorText asked buf, moved =>
      obtain ⟨rfl, same⟩ := Option.ite_none_right_eq_some.mp moved
      cases same
      exact .errorText buf
    | .explained cmd buf stat, .line line, moved =>
      obtain ⟨rfl, same⟩ := Option.ite_none_right_eq_some.mp moved
      cases same
      exact .report
  · intro stepped
    cases stepped <;> simp_all [machine, step]

section Readings

/-- The call that failed, with its status. -/
@[simp] def failure? : Act → Option (String × CanStatus)
  | .answer cmd stat => if stat = canOK then none else some (cmd, stat)
  | _ => none

@[simp] def report? : Act → Option Line
  | .line line => if isReport line then some line else none
  | _ => none

/-- The calls that have failed. -/
def failures (acts : List Act) : List (String × CanStatus) := acts.filterMap failure?

/-- The reports on the console. -/
def reports (acts : List Act) : List Line := acts.filterMap report?

@[simp] theorem failures_concat : failures (acts ++ [act]) = failures acts ++ (failure? act).toList :=
  LabeledMachine.filterMap_concat _ acts act

@[simp] theorem reports_concat : reports (acts ++ [act]) = reports acts ++ (report? act).toList :=
  LabeledMachine.filterMap_concat _ acts act

/-- The line reports the failure, with the text which the driver had for it. -/
def Reports (acts : List Act) (failure : String × CanStatus) (line : Line) : Prop :=
  ∃ buf, .errorText failure.2 buf ∈ acts ∧ line = failed failure.1 buf failure.2

/-- The failure that is yet to be reported. -/
@[simp] def Phase.pending : Phase → List (String × CanStatus)
  | .quiet => []
  | .failure cmd stat | .explained cmd _ stat => [(cmd, stat)]

@[simp] theorem isReport_failed (cmd buf : String) (stat : CanStatus) : isReport (failed cmd buf stat) = true := by
  simp [isReport, failed]

theorem Reports.concat {failure : String × CanStatus} {line : Line} (reports : Reports acts failure line) :
    Reports (acts ++ [act]) failure line := by
  obtain ⟨buf, asked, same⟩ := reports
  exact ⟨buf, List.mem_append_left _ asked, same⟩

/-- What is reported are the failures, each once and in order, but for one that is pending. -/
theorem reports_of_run (run : machine.Run .quiet acts phase) :
    ∃ told, failures acts = told ++ phase.pending ∧ List.Forall₂ (Reports acts) told (reports acts) := by
  have held : (∃ told, failures acts = told ++ phase.pending ∧
      List.Forall₂ (Reports acts) told (reports acts)) ∧
      ∀ cmd buf stat, phase = .explained cmd buf stat → .errorText stat buf ∈ acts := by
    refine run.invariant (I := fun acts phase => (∃ told, failures acts = told ++ phase.pending ∧
      List.Forall₂ (Reports acts) told (reports acts)) ∧
      ∀ cmd buf stat, phase = .explained cmd buf stat → .errorText stat buf ∈ acts)
      ⟨⟨[], rfl, .nil⟩, nofun⟩ ?_
    rintro prior middle act next - ⟨⟨told, same, each⟩, asked⟩ stepped
    have later : List.Forall₂ (Reports (prior ++ [act])) told (reports prior) :=
      each.imp fun _ _ reports => reports.concat
    cases step_eq_some_iff.mp stepped
    case answer cmd stat =>
      by_cases fine : stat = canOK <;>
        exact ⟨⟨told, by simpa [after, fine] using same, by simpa using later⟩, by simp [after, fine]⟩
    case line line other =>
      exact ⟨⟨told, by simpa using same, by simpa [other] using later⟩, nofun⟩
    case errorText cmd stat buf =>
      refine ⟨⟨told, by simpa using same, by simpa using later⟩, ?_⟩
      rintro _ _ _ ⟨⟩
      simp
    case report cmd buf stat =>
      refine ⟨⟨told ++ [(cmd, stat)], by simpa using same, ?_⟩, nofun⟩
      have reported : Reports (prior ++ [.line (failed cmd buf stat)]) (cmd, stat) (failed cmd buf stat) :=
        ⟨buf, List.mem_append_left _ (asked _ _ _ rfl), rfl⟩
      simpa using List.rel_append later (.cons reported .nil)
  exact held.1

end Readings

end Reporting

namespace Process

/-- What an event of the main thread is to the console. The handle which `canOpenChannel` returns is taken for
a status. -/
def Event.act? : Event → Option Reporting.Act
  | .main ⟨.canGetNumberOfChannels, answer⟩ => some (.answer "canGetNumberOfChannels" answer.1)
  | .main ⟨.canGetChannelData _ _, answer⟩ => some (.answer "canGetChannelData" answer.1)
  | .main ⟨.canOpenChannel _ _, handle⟩ => some (.answer "canOpenChannel" handle)
  | .main ⟨.canSetBusParams _ _ _ _ _ _, stat⟩ => some (.answer "canSetBusParams" stat)
  | .main ⟨.canBusOn _, stat⟩ => some (.answer "canBusOn" stat)
  | .main ⟨.canBusOff _, stat⟩ => some (.answer "canBusOff" stat)
  | .main ⟨.canClose _, stat⟩ => some (.answer "canClose" stat)
  | .canWrite _ _ stat => some (.answer "canWrite" stat)
  | .canWriteSync _ _ stat => some (.answer "canWriteSync" stat)
  | .main ⟨.canGetErrorText stat, buf⟩ | .report ⟨.canGetErrorText stat, buf⟩ => some (.errorText stat buf)
  | .main ⟨.writeLine line, _⟩ | .report ⟨.writeLine line, _⟩ => some (.line line)
  | _ => none

/-- The driver calls of the main thread and the lines on the console. -/
def acts (tape : List Event) : List Reporting.Act := tape.filterMap Event.act?

end Process

end OtaCli.Model
