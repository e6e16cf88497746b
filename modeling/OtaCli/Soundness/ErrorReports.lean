import OtaCli.Machine.Refinement
import OtaCli.Model.Reporting
import OtaCli.Soundness.ProcessRefinement

/-! # Every failure of the driver is reported

Whatever becomes of the result of `CheckForError`, it is called for every status the main thread is given, in
`Init`, in `Stop` and within each call. So the console keeps to the machine of the reports in every run of the
process: what the main thread is told of failures stands there, each once, in order and before anything else.
The reader loops call it nowhere, and a `canRead` that fails leaves no trace.
-/

namespace OtaCli.Soundness.ErrorReports

open Model Model.Process Interaction LabeledMachine Proofs.Release Proofs.MainCode Reporting
open KvaserInterface (Fields)

variable {options : CommandLineOptions} {files : String → File} {α : Type} {o o' : Fields}
  {post : α → Fields → Reporting.Phase → Prop} {phase : Reporting.Phase}

/-- What an operation of the code is to the console. A call stands for one whose frame is sent without an
error. -/
def codeActs (_ : Fields) : Performed → List Act
  | ⟨.writeCmdMsgRsp _, _⟩ => [.answer "canWrite" canOK, .answer "canWriteSync" canOK]
  | event => (Process.Event.main event).act?.toList

/-- The contract of code that reports the failures it is told of. -/
abbrev ReportsFailures (p : Code α) (post : α → Fields → Reporting.Phase → Prop) (o : Fields)
    (phase : Reporting.Phase) : Prop := p.Follows Fields.machine Reporting.machine codeActs post o phase

/-- All that was told is reported. -/
def Settled {α : Type} : α → Fields → Reporting.Phase → Prop := fun _ _ phase => phase = .quiet

section Operations

/-- Operations which neither call the driver for a status nor write a line. -/
def IsMute : Op → Prop
  | .readKey | .canInitializeLibrary | .getInterfaces | .addInterface _ _ | .getHandle | .setHandle _
  | .startReader | .cancel => True
  | _ => False

theorem mute_reports {op : Op} {next : op.Answer → Code α} (mute : IsMute op)
    (rest : ∀ answer o', o.step ⟨op, answer⟩ = some o' → ReportsFailures (next answer) post o' phase) :
    ReportsFailures (.perform op next) post o phase := by
  apply Follows.skip
  intro answer o' acts
  refine ⟨?_, rest answer o' acts⟩
  cases op <;> first | rfl | exact mute.elim

/-- An operation that leaves the fields alone, and is to be seen on the console. -/
theorem act_reports {op : Op} {next : op.Answer → Code α} (silent : ∀ answer, o.step ⟨op, answer⟩ = some o)
    (seen : ∀ answer, ∃ act phase', codeActs o ⟨op, answer⟩ = [act] ∧ Reporting.Step phase act phase' ∧
      ReportsFailures (next answer) post o phase') : ReportsFailures (.perform op next) post o phase := by
  apply Follows.emit silent
  intro answer
  obtain ⟨act, phase', same, step, rest⟩ := seen answer
  exact ⟨act, phase', same, Reporting.step_eq_some_iff.mpr step, rest⟩

/-- A line that is no report can be written where nothing is pending. -/
theorem line_reports {line : Line} {next : Unit → Code α} (other : isReport line = false)
    (rest : ReportsFailures (next ()) post o .quiet) :
    ReportsFailures (.perform (.writeLine line) next) post o .quiet :=
  act_reports (fun _ => rfl) fun _ => ⟨_, _, rfl, .line other, rest⟩

/-- `CheckForError` reports the status it is given. -/
theorem checkForError_reports {post : Bool → Fields → Reporting.Phase → Prop} (stat : CanStatus) (cmd : String)
    (holds : ∀ value, post value o .quiet) :
    ReportsFailures (KvaserInterface.checkForError stat cmd) post o (after cmd stat) := by
  by_cases fine : stat = canOK
  · rw [KvaserInterface.checkForError, if_pos fine, after, if_pos fine]
    exact holds false
  · rw [KvaserInterface.checkForError, if_neg fine, after, if_neg fine]
    refine act_reports (fun _ => rfl) fun buf => ⟨_, _, rfl, .errorText buf, ?_⟩
    exact act_reports (fun _ => rfl) fun _ => ⟨_, _, rfl, .report, holds true⟩

theorem checked_reports {stat : CanStatus} {cmd : String} {f : Bool → Code α}
    (rest : ∀ value, ReportsFailures (f value) post o .quiet) :
    ReportsFailures (KvaserInterface.checkForError stat cmd >>= f) post o (after cmd stat) :=
  Follows.bind (checkForError_reports stat cmd rest)

end Operations

section Parts

private theorem listRounds_reports (rounds : ℕ) (i : Int32) (o : Fields) :
    ReportsFailures (KvaserInterface.listRounds rounds i) Settled o .quiet := by
  induction rounds generalizing i o with
  | zero => exact rfl
  | succ rounds ih =>
    refine act_reports (fun _ => rfl) fun answer => ⟨_, _, rfl, .answer _ _, checked_reports fun failed => ?_⟩
    cases failed with
    | true => exact rfl
    | false => exact mute_reports (by trivial) fun _ o' _ => ih _ o'

private theorem listChannels_reports (o : Fields) : ReportsFailures KvaserInterface.listChannels Settled o .quiet := by
  refine act_reports (fun _ => rfl) fun answer => ⟨_, _, rfl, .answer _ _, checked_reports fun failed => ?_⟩
  cases failed with
  | true => exact rfl
  | false => exact listRounds_reports _ _ o

private theorem init_reports (chanelId baudRate : Int32) (o : Fields) :
    ReportsFailures (KvaserInterface.init chanelId baudRate) Settled o .quiet := by
  simp only [KvaserInterface.init, call_bind, pure_eq]
  refine mute_reports (by trivial) fun _ o₁ _ => ?_
  apply Follows.bind
  apply (listChannels_reports o₁).mono
  rintro _ o₂ _ rfl
  refine mute_reports (by trivial) fun found o₃ _ => ?_
  split
  · exact rfl
  refine act_reports (fun _ => rfl) fun handle => ⟨_, _, rfl, .answer _ _, ?_⟩
  refine mute_reports (by trivial) fun _ o₄ sets => mute_reports (by trivial) fun loaded o₅ loads => ?_
  -- the field holds what `canOpenChannel` has returned
  obtain rfl := Option.some.inj sets
  obtain ⟨rfl, -⟩ := Option.ite_none_right_eq_some.mp loads
  refine checked_reports fun _ => mute_reports (by trivial) fun _ o₆ _ => ?_
  refine act_reports (fun _ => rfl) fun status => ⟨_, _, rfl, .answer _ _, checked_reports fun _ => ?_⟩
  refine mute_reports (by trivial) fun _ o₇ _ => ?_
  refine act_reports (fun _ => rfl) fun status => ⟨_, _, rfl, .answer _ _, checked_reports fun _ => ?_⟩
  exact mute_reports (by trivial) fun _ _ _ => rfl

/-- In the code a call is silent, and the numbers are no reports. -/
private theorem updater_reports (client : Client Bool) (o : Fields) :
    ReportsFailures client.toCode Settled o .quiet := by
  induction client generalizing o with
  | ret value => exact rfl
  | raise e => trivial
  | writeLine value next ih => exact line_reports rfl (ih o)
  | writeCmdMsgRsp cmd next ih =>
    intro response o' _
    refine ⟨.quiet, ?_, ih response o'⟩
    refine Run.cons_iff.mpr ⟨_, Reporting.step_eq_some_iff.mpr (.answer _ canOK), ?_⟩
    exact Run.singleton_iff.mpr (Reporting.step_eq_some_iff.mpr (.answer _ canOK))

private theorem stop_reports (o : Fields) : ReportsFailures KvaserInterface.stop Settled o .quiet := by
  simp only [KvaserInterface.stop, call_bind]
  refine mute_reports (by trivial) fun _ o₁ _ => ?_
  refine act_reports (fun _ => rfl) fun status => ⟨_, _, rfl, .answer _ _, checked_reports fun _ => ?_⟩
  refine mute_reports (by trivial) fun _ o₂ _ => ?_
  refine act_reports (fun _ => rfl) fun status => ⟨_, _, rfl, .answer _ _, checked_reports fun _ => ?_⟩
  exact mute_reports (by trivial) fun _ _ _ => rfl

private theorem unavailable_reports (o : Fields) : ReportsFailures unavailable Settled o .quiet := by
  have found (interfaces : List (Int32 × String)) (o : Fields) :
      ReportsFailures (interfaces.forM fun kInterface =>
        Code.call (.writeLine (.format "Found channel: \x7b0\x7d \x7b1\x7d"
          [.int kInterface.1, .string kInterface.2]))) Settled o .quiet := by
    induction interfaces with
    | nil => exact rfl
    | cons kInterface rest ih => exact line_reports (by simp [isReport]) ih
  simp only [unavailable, call_bind]
  refine line_reports rfl (line_reports rfl (mute_reports (by trivial) fun seen o' _ => ?_))
  apply Follows.bind
  apply (found seen o').mono
  rintro _ _ _ rfl
  exact rfl

private theorem finish_reports (o : Fields) : ReportsFailures (finish (chosen options files)) Settled o .quiet := by
  simp only [finish, verify_toCode, call_bind, ret_bind]
  refine line_reports rfl (line_reports rfl (mute_reports (by trivial) fun key o' _ => ?_))
  cases key with
  | error e => trivial
  | ok _ =>
    change ReportsFailures (KvaserInterface.stop >>= fun _ => Code.call (.writeLine (.text "Program End"))) Settled
      o' .quiet
    apply Follows.bind
    apply (stop_reports o').mono
    rintro _ o'' _ rfl
    exact line_reports rfl rfl

private theorem main_reports (options : Option CommandLineOptions) (files : String → File) (o : Fields) :
    ReportsFailures (Program.main options files) Settled o .quiet := by
  cases options with
  | none => exact line_reports rfl rfl
  | some options =>
    rw [main_eq]
    apply Follows.bind
    apply (init_reports _ _ o).mono
    rintro value o' _ rfl
    rw [afterInit]
    split
    · split
      · exact line_reports rfl rfl
      · apply Follows.bind
        apply (updater_reports _ o').mono
        rintro _ o'' _ rfl
        exact finish_reports o''
    · exact unavailable_reports o'

end Parts

section Threads

variable {s t : State} {event : Process.Event} {tape : List Process.Event}

/-- The operations of `CheckForError`. -/
def IsReporting : Op → Prop
  | .canGetErrorText _ | .writeLine _ => True
  | _ => False

/-- What the main thread will still report, by where it stands: within a call the status of the last driver call
first, and then nothing before the call has returned. -/
def MainReports (main : MainPc) (o : Fields) (phase : Reporting.Phase) : Prop :=
  match main with
  | .code p => ReportsFailures p Settled o phase
  | .checkWrite call rest | .checkWriteSync call rest => rest.Only IsReporting ∧
    ReportsFailures rest Settled o phase ∧ ∀ response, ReportsFailures (call.next response) Settled o .quiet
  | .writeSync call | .loopTest call _ | .loopBody call | .clear call _ => phase = .quiet ∧
    ∀ response, ReportsFailures (call.next response) Settled o .quiet

variable {call : Activation} {rest : Code Bool}

private theorem mainReports_wrote (only : rest.Only IsReporting) (reports : ReportsFailures rest Settled o phase)
    (later : ∀ response, ReportsFailures (call.next response) Settled o .quiet) :
    MainReports (.wrote call rest) o phase := by
  cases rest with
  | ret value => exact ⟨reports, later⟩
  | raise e => exact ⟨only, reports, later⟩
  | perform op next => exact ⟨only, reports, later⟩

private theorem mainReports_synced (only : rest.Only IsReporting) (reports : ReportsFailures rest Settled o phase)
    (later : ∀ response, ReportsFailures (call.next response) Settled o .quiet) :
    MainReports (.synced call rest) o phase := by
  cases rest with
  | ret value => exact ⟨reports, later⟩
  | raise e => exact ⟨only, reports, later⟩
  | perform op next => exact ⟨only, reports, later⟩

private theorem checkForError_isReporting (stat : CanStatus) (cmd : String) :
    (KvaserInterface.checkForError stat cmd).Only IsReporting :=
  KvaserInterface.checkForError_only trivial fun _ => trivial

/-- Before a call nothing is pending, and nothing after it. -/
private theorem quiet_of_call {cmd : CommandPacket} {next : Option ResponsePacket → Code Unit}
    (reports : ReportsFailures (.perform (.writeCmdMsgRsp cmd) next) Settled o phase) :
    phase = .quiet ∧ ∀ response, ReportsFailures (next response) Settled o .quiet := by
  have after (response : Option ResponsePacket) : phase = .quiet ∧
      ReportsFailures (next response) Settled o .quiet := by
    obtain ⟨phase', run, rest⟩ := reports response o rfl
    obtain ⟨middle, writes, run⟩ := Run.cons_iff.mp run
    cases Reporting.step_eq_some_iff.mp writes
    cases Reporting.step_eq_some_iff.mp (Run.singleton_iff.mp run)
    exact ⟨rfl, rest⟩
  exact ⟨(after none).1, fun response => (after response).2⟩

private theorem codeActs_of_own {event : Performed} (own : isCall event.1 = false) :
    codeActs o event = (Process.Event.main event).act?.toList := by
  rcases event with ⟨op, answer⟩
  cases op <;> first | rfl | cases own

/-- The operations of `CheckForError` leave the fields alone, and are seen alike in a call and outside. -/
private theorem act_of_isReporting {event : Performed} (reporting : IsReporting event.1) :
    o.step event = some o ∧ codeActs o event = (Process.Event.report event).act?.toList := by
  rcases event with ⟨op, answer⟩
  cases op <;> first | exact ⟨rfl, rfl⟩ | exact reporting.elim

/-- Within a call `CheckForError` goes on as it does in the code. -/
private theorem report_step {event : Performed} {next : Code Bool} (only : rest.Only IsReporting)
    (reports : ReportsFailures rest Settled o phase)
    (moves : (Interaction.machine _ _ _).step rest event = some next) :
    ∃ phase', Reporting.machine.Run phase (Process.Event.report event).act?.toList phase' ∧
      next.Only IsReporting ∧ ReportsFailures next Settled o phase' := by
  obtain ⟨reporting, still⟩ := only.step moves
  obtain ⟨acts, same⟩ := act_of_isReporting (o := o) reporting
  obtain ⟨phase', run, later⟩ := reports.step moves acts
  exact ⟨phase', same ▸ run, still, later⟩

theorem MainReports.step (reports : MainReports s.main s.fields phase) (stepped : Process.Step s event t) :
    ∃ phase', Reporting.machine.Run phase event.act?.toList phase' ∧ MainReports t.main t.fields phase' := by
  have answered (cmd : String) (stat : CanStatus) :
      Reporting.machine.Run .quiet [.answer cmd stat] (after cmd stat) :=
    Run.singleton_iff.mpr (Reporting.step_eq_some_iff.mpr (.answer cmd stat))
  cases stepped
  case main own moves acts =>
    obtain ⟨phase', run, rest⟩ := Follows.step reports moves acts
    exact ⟨phase', codeActs_of_own own ▸ run, rest⟩
  case canWrite stat =>
    obtain ⟨rfl, later⟩ := quiet_of_call reports
    exact ⟨_, answered _ stat, mainReports_wrote (checkForError_isReporting _ _)
      (checkForError_reports _ _ fun _ => rfl) later⟩
  case canWriteSync stat =>
    obtain ⟨rfl, later⟩ := reports
    exact ⟨_, answered _ stat, mainReports_synced (checkForError_isReporting _ _)
      (checkForError_reports _ _ fun _ => rfl) later⟩
  case reportWrite moves =>
    obtain ⟨only, holds, later⟩ := reports
    obtain ⟨phase', run, still, rest⟩ := report_step only holds moves
    exact ⟨phase', run, mainReports_wrote still rest later⟩
  case reportSync moves =>
    obtain ⟨only, holds, later⟩ := reports
    obtain ⟨phase', run, still, rest⟩ := report_step only holds moves
    exact ⟨phase', run, mainReports_synced still rest later⟩
  case clear =>
    obtain ⟨rfl, later⟩ := reports
    exact ⟨_, .refl _, later _⟩
  all_goals exact ⟨phase, .refl _, reports⟩

private theorem reporting_simulates (options : Option CommandLineOptions) (files : String → File) :
    Simulates Process.machine Reporting.machine Process.Event.act?
      (fun _ s phase => MainReports s.main s.fields phase) (new (Program.main options files)) := by
  constructor
  rintro tape s phase event t - reports stepped
  exact reports.step (step_eq_some_iff.mp stepped).2

/-- Every failure that the driver tells the main thread of is reported, and nothing else is. In every run of the
process, whatever the loops do meanwhile, the reports on the console are those of the failed calls, each once, in
order, and with a text that the driver gave for the status; at most the last failure is yet to be reported, and
none when `Main` has returned or while a call waits for its response. -/
theorem every_failure_reported (options : Option CommandLineOptions) (files : String → File)
    (run : Process.machine.Run (new (Program.main options files)) tape s) :
    ∃ phase told, Reporting.machine.Run .quiet (acts tape) phase ∧
      failures (acts tape) = told ++ phase.pending ∧
      List.Forall₂ (Reports (acts tape)) told (reports (acts tape)) ∧
      (s.main = .code (.ret ()) ∨ (∃ call response, s.main = .loopTest call response) →
        phase.pending = []) := by
  obtain ⟨phase, path, holds⟩ :=
    (reporting_simulates options files).run (main_reports options files {}) run
  obtain ⟨told, same, each⟩ := reports_of_run path
  refine ⟨phase, told, path, same, each, ?_⟩
  rintro (returned | ⟨call, response, waits⟩)
  · rw [returned] at holds
    obtain rfl : phase = .quiet := holds
    rfl
  · rw [waits] at holds
    obtain ⟨rfl, -⟩ := holds
    rfl

/-- The channel could not be put on the bus, and the console says so. -/
theorem every_failure_reported_of_bus_off :
    ∃ tape : List Process.Event, failures (acts tape) = [("canBusOn", -13)] ∧ ∃ phase told,
      failures (acts tape) = told ++ Reporting.Phase.pending phase ∧
      List.Forall₂ (Reports (acts tape)) told (reports (acts tape)) := by
  have run := ProcessRefinement.opening_run { interface := 0 } (fun _ => .ok []) rfl
    ⟨0, canOK, -13, ("", "", "Hardware error")⟩
  obtain ⟨phase, told, -, same, each, -⟩ := every_failure_reported _ _ run
  exact ⟨_, rfl, phase, told, same, each⟩

end Threads

end OtaCli.Soundness.ErrorReports
