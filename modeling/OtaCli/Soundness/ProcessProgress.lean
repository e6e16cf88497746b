import OtaCli.Soundness.ProcessRefinement
import OtaCli.Soundness.WireTranscript

/-! # How the program can come to an end

No state which the process reaches with a loop running is stuck: the driver, the device and the user can always
bring the main thread to the end of its code. What that end is they cannot choose, but for the key. It is in the
options and the file, and in what `ReadKey` comes to, whether all threads can end, or an exception ends the process,
or neither.
-/

namespace OtaCli.Soundness.ProcessProgress

open Model Model.Process Interaction LabeledMachine Proofs.Release Proofs.MainCode ProcessRefinement
open ReaderLifetime (isRunning)

variable {o o' : KvaserInterface.Fields} {slot : Option ResponsePacket} {readers : List ReaderPc}
  {r : ReaderPc} {s t : State}

section MainThread

/-- Whatever an operation needs of the fields, it can be answered. -/
theorem exists_answer (o : KvaserInterface.Fields) (op : Op) :
    ∃ (answer : op.Answer) (o' : KvaserInterface.Fields), o.step ⟨op, answer⟩ = some o' := by
  cases op
  case getInterfaces => exact ⟨o.interfaces, o, if_pos rfl⟩
  case getHandle => exact ⟨o.handle, o, if_pos rfl⟩
  case canGetNumberOfChannels => exact ⟨(canOK, 0), o, rfl⟩
  case canGetChannelData => exact ⟨(canOK, ""), o, rfl⟩
  case canOpenChannel => exact ⟨0, o, rfl⟩
  case canSetBusParams => exact ⟨canOK, o, rfl⟩
  case canBusOn => exact ⟨canOK, o, rfl⟩
  case canBusOff => exact ⟨canOK, o, rfl⟩
  case canClose => exact ⟨canOK, o, rfl⟩
  case canGetErrorText => exact ⟨"", o, rfl⟩
  case readKey => exact ⟨.ok (), o, rfl⟩
  case writeCmdMsgRsp => exact ⟨none, o, rfl⟩
  all_goals exact ⟨(), _, rfl⟩

/-- And the code goes on with the answer. -/
theorem perform_step {α : Type} {op : Op} (next : op.Answer → Code α) (answer : op.Answer) :
    (Interaction.machine _ _ _).step (.perform op next) ⟨op, answer⟩ = some (next answer) :=
  step_perform_iff.mpr ⟨answer, rfl, rfl⟩

/-- Code always comes to an end, whatever the fields are. -/
private theorem exists_ends {α : Type} (p : Code α) (o : KvaserInterface.Fields) :
    ∃ tape outcome o', Ends p tape outcome ∧ KvaserInterface.Fields.machine.Run o tape o' := by
  induction p generalizing o with
  | ret value => exact ⟨[], .ok value, o, .refl _, .refl _⟩
  | raise e => exact ⟨[], .error e, o, .refl _, .refl _⟩
  | perform op next ih =>
    obtain ⟨answer, o₁, acts⟩ := exists_answer o op
    obtain ⟨tape, outcome, o', ends, run⟩ := ih answer o₁
    exact ⟨⟨op, answer⟩ :: tape, outcome, o', ends.perform, Run.cons_iff.mpr ⟨o₁, acts, run⟩⟩

/-- Neither a call nor the start of a loop. -/
def IsOwn (op : Op) : Prop := isCall op = false ∧ op ≠ .startReader

theorem own_of_after {op : Op} (after : IsAfter op) : IsOwn op := ⟨after.1.uncalled, after.2⟩

private theorem own_of_leaving {op : Op} (leaving : IsLeaving op) : IsOwn op := ⟨leaving.1.uncalled, leaving.2.1⟩

/-- Where only such operations are left, the main thread can come to its end. -/
theorem exists_main_end (slot : Option ResponsePacket) {p : Code Unit} (only : p.Only IsOwn)
    (sound : readers.any isCrashed = false) :
    ∃ events outcome o', Process.machine.Run ⟨.code p, o, slot, readers⟩ events
      ⟨.code (ended outcome), o', slot, readers⟩ := by
  obtain ⟨tape, outcome, o', ends, run⟩ := exists_ends p o
  have own (event) (member : event ∈ tape) : IsOwn event.1 := only.run ends event member
  have unstarted : readersAfter readers tape = readers := by
    clear ends run
    induction tape with
    | nil => rfl
    | cons event rest ih =>
      obtain ⟨here, later⟩ := List.forall_mem_cons.mp own
      rw [readersAfter, List.foldl_cons, startReader_of_ne here.2]
      exact ih later
  have moved := main_run slot ends run (fun event member => (own event member).1) sound
  exact ⟨_, outcome, o', unstarted ▸ moved⟩

end MainThread

section Calls

variable {call : Activation} {main : MainPc} {packet : ResponsePacket}

/-- The call that has been through its `canWrite` and has not left its wait. -/
def inWait? : MainPc → Option Activation
  | .checkWrite call _ | .writeSync call | .checkWriteSync call _ | .loopTest call _ | .loopBody call => some call
  | .code _ | .clear _ _ => none

@[simp] theorem inWait_wrote (call : Activation) (rest : Code Bool) : inWait? (.wrote call rest) = some call := by
  cases rest <;> rfl

@[simp] theorem inWait_synced (call : Activation) (rest : Code Bool) : inWait? (.synced call rest) = some call := by
  cases rest <;> rfl

theorem unraised_of_inWait (waits : inWait? main = some call) : main.hasRaised = false := by
  cases main <;> first | rfl | cases waits

/-- Where a call reports, there is something left of the report, and it returns. -/
def ReportReturns : MainPc → Prop
  | .checkWrite call rest => rest.Returns ∧ MainPc.wrote call rest = .checkWrite call rest
  | .checkWriteSync call rest => rest.Returns ∧ MainPc.synced call rest = .checkWriteSync call rest
  | _ => True

theorem reportReturns_wrote {rest : Code Bool} (returns : rest.Returns) : ReportReturns (.wrote call rest) := by
  cases rest with
  | ret value => trivial
  | raise e => exact returns.elim
  | perform op next => exact ⟨returns, rfl⟩

section Full

/-- With the slot full, the call can come to clear it. -/
def CanLeave (call : Activation) (s : State) : Prop :=
  ∃ events response, Process.machine.Run s events { s with main := .clear call response }

variable (sound : readers.any isCrashed = false)
include sound

private theorem canLeave_of_step {main' : MainPc} {event : Process.Event} (unraised : main.hasRaised = false)
    (stepped : Process.Step ⟨main, o, some packet, readers⟩ event ⟨main', o, some packet, readers⟩)
    (leaves : CanLeave call ⟨main', o, some packet, readers⟩) :
    CanLeave call ⟨main, o, some packet, readers⟩ := by
  obtain ⟨events, response, run⟩ := leaves
  exact ⟨_, response, step_cons unraised sound stepped run⟩

private theorem canLeave_of_loopTest (response : Option ResponsePacket) :
    CanLeave call ⟨.loopTest call response, o, some packet, readers⟩ :=
  ⟨_, response, step_cons rfl sound .loopExit (.refl _)⟩

/-- A report in the middle of a call comes to its end. -/
private theorem canLeave_of_report {place : Code Bool → MainPc} {rest : Code Bool} (returns : rest.Returns)
    (unraised : ∀ op next, (place (.perform op next)).hasRaised = false)
    (steps : ∀ op next answer, Process.Step ⟨place (.perform op next), o, some packet, readers⟩
      (.report ⟨op, answer⟩) ⟨place (next answer), o, some packet, readers⟩)
    (done : ∀ value, CanLeave call ⟨place (.ret value), o, some packet, readers⟩) :
    CanLeave call ⟨place rest, o, some packet, readers⟩ := by
  induction rest with
  | ret value => exact done value
  | raise e => exact returns.elim
  | perform op next ih =>
    obtain ⟨answer, -⟩ := exists_answer o op
    exact canLeave_of_step sound (unraised op next) (steps op next answer) (ih answer (returns answer))

private theorem canLeave_of_synced {rest : Code Bool} (returns : rest.Returns) :
    CanLeave call ⟨.synced call rest, o, some packet, readers⟩ := by
  apply canLeave_of_report sound returns
  · exact fun op next => rfl
  · exact fun op next answer => .reportSync (perform_step next answer)
  · exact fun value => canLeave_of_loopTest sound none

private theorem canLeave_of_writeSync : CanLeave call ⟨.writeSync call, o, some packet, readers⟩ :=
  canLeave_of_step sound rfl (.canWriteSync canOK)
    (canLeave_of_synced sound (checkForError_returns canOK "canWriteSync"))

private theorem canLeave_of_wrote {rest : Code Bool} (returns : rest.Returns) :
    CanLeave call ⟨.wrote call rest, o, some packet, readers⟩ := by
  apply canLeave_of_report sound returns
  · exact fun op next => rfl
  · exact fun op next answer => .reportWrite (perform_step next answer)
  · exact fun value => canLeave_of_writeSync sound

/-- Wherever a call stands in its wait, with a full slot it can leave it. -/
theorem canLeave (waits : inWait? main = some call) (returns : ReportReturns main) :
    CanLeave call ⟨main, o, some packet, readers⟩ := by
  cases main with
  | code rest => cases waits
  | clear call response => cases waits
  | checkWrite call rest =>
    cases waits
    obtain ⟨returns, same⟩ := returns
    exact same ▸ canLeave_of_wrote sound returns
  | writeSync call =>
    cases waits
    exact canLeave_of_writeSync sound
  | checkWriteSync call rest =>
    cases waits
    obtain ⟨returns, same⟩ := returns
    exact same ▸ canLeave_of_synced sound returns
  | loopTest call response =>
    cases waits
    exact canLeave_of_loopTest sound response
  | loopBody call =>
    cases waits
    exact canLeave_of_step sound rfl .loopBody (canLeave_of_loopTest sound (some packet))

end Full

section Filling

/-- A loop that stores nothing any more: it has ended, or it will at its next step. -/
def IsSpent (cancelled : Bool) (pc : ReaderPc) : Prop := pc = .ended ∨ pc = .check ∧ cancelled = true

private theorem unspent_of_running (running : isRunning r = true) (uncancelled : o.cancelled = false) :
    ¬ IsSpent o.cancelled r := by
  rintro (rfl | ⟨-, cancelled⟩)
  · cases running
  · simp [uncancelled] at cancelled

theorem sound_set {i : ℕ} {pc : ReaderPc} (sound : readers.any isCrashed = false)
    (uncrashed : isCrashed pc = false) : (readers.set i pc).any isCrashed = false := by
  rw [List.any_eq_false] at sound ⊢
  intro moved member
  obtain earlier | rfl := List.mem_or_eq_of_mem_set member
  · exact sound moved earlier
  · simp [uncrashed]

private theorem moved_stands {i : ℕ} (stands : readers[i]? = some r) (moved : ReaderPc) :
    (readers.set i moved)[i]? = some moved := by
  obtain ⟨inside, -⟩ := List.getElem?_eq_some_iff.mp stands
  simp [inside]

/-- A loop can come to store a response, and to its check, while nothing else moves. -/
def CanFill (i : ℕ) (s : State) : Prop :=
  ∃ events packet, Process.machine.Run s events
    { s with responsePacket := some packet, readers := s.readers.set i .check }

variable {i : ℕ} (unraised : main.hasRaised = false)
include unraised

private theorem canFill_of_step {moved : ReaderPc} {event : Lifetime.ReaderEvent}
    (sound : readers.any isCrashed = false) (stands : readers[i]? = some r)
    (moves : Lifetime.readerStep o r event = some moved)
    (unstored : Lifetime.storeResponse slot event = slot)
    (fills : CanFill i ⟨main, o, slot, readers.set i moved⟩) : CanFill i ⟨main, o, slot, readers⟩ := by
  obtain ⟨events, packet, run⟩ := fills
  rw [List.set_set, ← unstored] at run
  exact ⟨_, packet, reader_cons unraised sound stands moves run⟩

private theorem canFill_of_store (sound : readers.any isCrashed = false) (stands : readers[i]? = some (.store packet)) :
    CanFill i ⟨main, o, slot, readers⟩ := by
  have stores : Lifetime.readerStep o (.store packet) (.store packet) = some .check := by
    simp [Lifetime.readerStep]
  exact ⟨_, packet, reader_cons unraised sound stands stores (.refl _)⟩

private theorem canFill_of_read (sound : readers.any isCrashed = false) (stands : readers[i]? = some .read) :
    CanFill i ⟨main, o, slot, readers⟩ := by
  have reads : Lifetime.readerStep o .read (.canRead o.handle AnsweredCall.pong) =
      some (.store AnsweredCall.pong.parsed) := by
    simp [Lifetime.readerStep, AnsweredCall.afterRead_of_isResponse AnsweredCall.pong_isResponse]
  exact canFill_of_step unraised sound stands reads rfl
    (canFill_of_store unraised (sound_set sound rfl) (moved_stands stands _))

/-- A loop that is not spent can fill the slot. -/
theorem canFill (sound : readers.any isCrashed = false) (stands : readers[i]? = some r)
    (unspent : ¬ IsSpent o.cancelled r) : CanFill i ⟨main, o, slot, readers⟩ := by
  cases r with
  | check =>
    have uncancelled : o.cancelled = false := by simpa [IsSpent] using unspent
    have checks : Lifetime.readerStep o .check (.isCancellationRequested false) = some .read := by
      simp [Lifetime.readerStep, uncancelled, ReviverLoop.afterCheck]
    exact canFill_of_step unraised sound stands checks rfl
      (canFill_of_read unraised (sound_set sound rfl) (moved_stands stands _))
  | read => exact canFill_of_read unraised sound stands
  | store packet => exact canFill_of_store unraised sound stands
  | ended => exact absurd (.inl rfl) unspent
  | crashed e =>
    have uncrashed := List.any_eq_false.mp sound _ (List.mem_of_getElem? stands)
    exact absurd rfl uncrashed

end Filling

theorem sound_of_running (running : isRunning r = true) : [r].any isCrashed = false := by
  cases r <;> simp_all [isRunning, isCrashed]

/-- The call under way can return. -/
theorem exists_return (slot : Option ResponsePacket) (running : isRunning r = true)
    (uncancelled : o.cancelled = false) (waits : inWait? main = some call) (returns : ReportReturns main) :
    ∃ events response, Process.machine.Run ⟨main, o, slot, [r]⟩ events
      ⟨.code (call.next response), o, none, [.check]⟩ := by
  obtain ⟨filling, packet, filled⟩ : CanFill 0 ⟨main, o, slot, [r]⟩ :=
    canFill (unraised_of_inWait waits) (sound_of_running running) rfl (unspent_of_running running uncancelled)
  obtain ⟨leaving, response, left⟩ : CanLeave call ⟨main, o, some packet, [.check]⟩ :=
    canLeave rfl waits returns
  have cleared : Process.machine.Run ⟨.clear call response, o, some packet, [.check]⟩ [.clear call.cmd response]
      ⟨.code (call.next response), o, none, [.check]⟩ := step_cons rfl rfl .clear (.refl _)
  exact ⟨_, response, filled.append (left.append cleared)⟩

/-- An updater can come to its end. -/
private theorem exists_updated (running : isRunning r = true) (uncancelled : o.cancelled = false)
    (slot : Option ResponsePacket) (client : Client Bool) (k : Bool → Code Unit) :
    ∃ events outcome slot' r', isRunning r' = true ∧
      Process.machine.Run ⟨.code (client.toCode >>= k), o, slot, [r]⟩ events
        ⟨.code (ended outcome >>= k), o, slot', [r']⟩ := by
  induction client generalizing slot r with
  | ret value => exact ⟨[], .ok value, slot, r, running, .refl _⟩
  | raise e => exact ⟨[], .error e, slot, r, running, .refl _⟩
  | writeLine value next ih =>
    obtain ⟨events, outcome, slot', r', running', run⟩ := ih running slot
    have printing := (Step.main rfl (perform_step _ ()) rfl : Process.Step
      ⟨.code ((Client.writeLine value next).toCode >>= k), o, slot, [r]⟩ _ _)
    exact ⟨_, outcome, slot', r', running', step_cons rfl (sound_of_running running) printing run⟩
  | writeCmdMsgRsp cmd next ih =>
    have reports := checkForError_returns canOK "canWrite"
    obtain ⟨before, response, called⟩ := exists_return slot running uncancelled
      (inWait_wrote ⟨cmd, fun response => (next response).toCode >>= k⟩ _) (reportReturns_wrote reports)
    obtain ⟨events, outcome, slot', r', running', run⟩ := ih response (rfl : isRunning .check = true) none
    exact ⟨_, outcome, slot', r', running',
      step_cons rfl (sound_of_running running) (.canWrite canOK) (called.append run)⟩

end Calls

section Ends

variable {options : CommandLineOptions} {files : String → File} {tape : List Process.Event}
  {k : KvaserState Bool}

/-- No loop throws, and none ends before the token is cancelled. -/
def LoopsSound (s : State) : Prop :=
  ∀ pc ∈ s.readers, isCrashed pc = false ∧ (pc = .ended → s.fields.cancelled = true)

theorem loopsSound_of_run {code : Code Unit} (run : Process.machine.Run (new code) tape s) : LoopsSound s := by
  refine run.invariant (I := fun _ => LoopsSound) (by simp [LoopsSound, new]) ?_
  rintro prior middle event next - holds stepped
  obtain ⟨-, rule⟩ := step_eq_some_iff.mp stepped
  cases rule
  case main own moves acts =>
    intro pc member
    obtain earlier | ⟨-, rfl⟩ := ReaderLifetime.mem_startReader.mp member
    · obtain ⟨sound, cancels⟩ := holds pc earlier
      exact ⟨sound, fun ended => (ReaderLifetime.cancelled_of_step acts).mpr (.inl (cancels ended))⟩
    · exact ⟨rfl, nofun⟩
  case reader stands moves =>
    intro pc member
    rcases List.mem_or_eq_of_mem_set member with earlier | rfl
    · exact holds pc earlier
    · obtain ⟨rfl, rfl, rfl⟩ | ⟨rfl, result, rfl, rfl⟩ | ⟨packet, rfl, rfl, rfl⟩ :=
        Lifetime.readerStep_cases moves
      · cases KvaserInterface.Fields.cancelled _ <;> simp [ReviverLoop.afterCheck, isCrashed]
      · rw [ReviverLoop.afterRead_eq]
        split <;> simp [isCrashed]
      · simp [isCrashed]
  all_goals exact holds

private theorem running_of_sound {main : MainPc} (sound : LoopsSound ⟨main, o, slot, [r]⟩)
    (uncancelled : o.cancelled = false) : isRunning r = true := by
  obtain ⟨uncrashed, cancels⟩ := sound r (List.mem_singleton_self r)
  cases r with
  | ended => exact absurd (cancels rfl) (by simp [uncancelled])
  | crashed e => cases uncrashed
  | _ => rfl

private theorem finish_own (options : CommandLineOptions) (files : String → File) :
    (finish (chosen options files)).Only IsOwn := by
  obtain ⟨rest, shape, ending⟩ := finish_after options files
  rw [shape]
  exact ⟨⟨rfl, nofun⟩, fun _ => ending.only.mono fun _ => own_of_after⟩

/-- The main thread has come to its end. -/
def MainEnded (s : State) : Prop := ∃ outcome, s.main = .code (ended outcome)

/-- From its update on, the main thread can come to its end. -/
private theorem exists_update_end (slot : Option ResponsePacket) (client : Client Bool) (running : isRunning r = true)
    (uncancelled : o.cancelled = false) :
    ∃ events t, Process.machine.Run
      ⟨.code (client.toCode >>= fun _ => finish (chosen options files)), o, slot, [r]⟩ events t ∧
        MainEnded t := by
  obtain ⟨events, outcome, slot', r', running', run⟩ :=
    exists_updated running uncancelled slot client fun _ => finish (chosen options files)
  cases outcome with
  | error e => exact ⟨events, _, run, .error e, rfl⟩
  | ok value =>
    obtain ⟨more, outcome, o', after⟩ := exists_main_end slot' (finish_own options files)
      (sound_of_running running')
    exact ⟨_, _, run.append after, outcome, rfl⟩

private theorem exists_end_of_agrees (agrees : Agrees options files s k) (sound : LoopsSound s)
    (started : s.readers ≠ []) : ∃ events t, Process.machine.Run s events t ∧ MainEnded t := by
  obtain ⟨stage, -, -⟩ := agrees
  rcases k with ⟨slot, sender, reader⟩
  have resume {main : MainPc} {cmd : CommandPacket} {next : Option ResponsePacket → Client Bool}
      {o : KvaserInterface.Fields} {packet : Option ResponsePacket} {r : ReaderPc}
      (sound : LoopsSound ⟨main, o, packet, [r]⟩) (uncancelled : o.cancelled = false)
      (waits : inWait? main = some ⟨cmd, resumed options files next⟩) (returns : ReportReturns main) :
      ∃ events t, Process.machine.Run ⟨main, o, packet, [r]⟩ events t ∧ MainEnded t := by
    have running := running_of_sound sound uncancelled
    obtain ⟨events, response, run⟩ := exists_return packet running uncancelled waits returns
    obtain ⟨more, t, after, ended⟩ :=
      exists_update_end none (next response) (rfl : isRunning .check = true) uncancelled
    exact ⟨_, t, run.append after, ended⟩
  have own {p : Code Unit} {o : KvaserInterface.Fields} {packet : Option ResponsePacket} {r : ReaderPc}
      (sound : LoopsSound ⟨.code p, o, packet, [r]⟩) (only : p.Only IsOwn) :
      ∃ events t, Process.machine.Run ⟨.code p, o, packet, [r]⟩ events t ∧ MainEnded t := by
    have uncrashed : [r].any isCrashed = false := by simpa using (sound r (List.mem_singleton_self r)).1
    obtain ⟨events, outcome, o', run⟩ := exists_main_end packet only uncrashed
    exact ⟨events, _, run, outcome, rfl⟩
  cases stage
  case opening => exact absurd rfl started
  case unavailable => exact absurd rfl started
  case scanning scan only uncancelled => exact own sound (only.mono fun _ => own_of_leaving)
  case closing scan value ending => exact own sound (ending.only.mono fun _ => own_of_after)
  case updating scan uncancelled =>
    exact exists_update_end _ _ (running_of_sound sound uncancelled) uncancelled
  case checkWrite scan uncancelled returns => exact resume sound uncancelled rfl ⟨returns, rfl⟩
  case writeSync scan uncancelled => exact resume sound uncancelled rfl trivial
  case checkWriteSync scan uncancelled returns => exact resume sound uncancelled rfl ⟨returns, rfl⟩
  case loopTest scan uncancelled => exact resume sound uncancelled rfl trivial
  case loopBody scan uncancelled => exact resume sound uncancelled rfl trivial
  case clear scan uncancelled =>
    obtain ⟨more, t, after, ended⟩ :=
      exists_update_end none (_ : Client Bool) (running_of_sound sound uncancelled) uncancelled
    exact ⟨_, t, step_cons rfl (sound_of_running (running_of_sound sound uncancelled)) .clear after, ended⟩

private theorem started_of_step {event : Process.Event} (stepped : Process.Step s event t)
    (started : t.readers ≠ []) : s.readers ≠ [] ∨ .startReader ∈ operations event.performed?.toList := by
  cases stepped with
  | @main o o' slot readers event rest next own moves acts =>
    by_cases starts : event.1 = .startReader
    · exact .inr (by simp [starts])
    · rw [startReader_of_ne starts] at started
      exact .inl started
  | reader => exact .inl (by simpa using started)
  | _ => exact .inl started

/-- Where there is a loop, it was started. -/
private theorem exists_start {code : Code Unit} (run : Process.machine.Run (new code) tape s)
    (started : s.readers ≠ []) : .startReader ∈ operations (performed tape) := by
  refine run.invariant (I := fun tape s => s.readers ≠ [] → .startReader ∈ operations (performed tape))
    (fun some => absurd rfl some) ?_ started
  intro prior middle event next _ before stepped started
  rw [performed_concat, operations_append, List.mem_append]
  exact (started_of_step (step_eq_some_iff.mp stepped).2 started).imp before id

/-- Only an `Init` that returns true starts a loop. -/
private theorem initialized_of_started {outcome : Except Exception Unit} {tape : List Performed}
    (ends : Ends (Program.main (some options) files) tape outcome) (started : .startReader ∈ operations tape) :
    Initialized options tape := by
  have finishes := KvaserInterface.init_finishes options.interface KvaserInterface.canBITRATE_500K
  obtain ⟨event, member, starts⟩ := List.mem_map.mp started
  rw [main_eq] at ends
  obtain ⟨value, first, second, rfl, inits, later⟩ | ⟨e, raised, -⟩ := ends_bind_iff.mp ends
  · cases value with
    | true => exact ⟨first, List.prefix_append _ _, inits⟩
    | false =>
      obtain inInit | after := List.mem_append.mp member
      · cases finishes.returns inits ⟨event, inInit, starts⟩
      · exact absurd starts (unavailable_leaving.run later event after).2.1
  · cases finishes.returns raised ⟨event, member, starts⟩

/-- The ends to which the main thread comes once the loop is there, with what was done and whether the token is
cancelled. -/
inductive Outcome (options : CommandLineOptions) (files : String → File) (tape : List Performed) (cancelled : Bool) :
    Except Exception Unit → Prop
  | scanned (scan : options.scan = true) (uncancelled : cancelled = false)
      (unread : ∀ key, ⟨.readKey, key⟩ ∉ tape) :
      Outcome options files tape cancelled (.ok ())
  | raised {e : Exception} (scan : options.scan = false)
      (fails : ¬ (options.onlineMode = true ∨ Flashable (files options.binary)))
      (unread : ∀ key, ⟨.readKey, key⟩ ∉ tape) : Outcome options files tape cancelled (.error e)
  | thrown {e : Exception} (scan : options.scan = false)
      (updates : options.onlineMode = true ∨ Flashable (files options.binary)) (throws : KeyThrown tape)
      (unread : ¬ KeyRead tape) : Outcome options files tape cancelled (.error e)
  | closed (scan : options.scan = false)
      (updates : options.onlineMode = true ∨ Flashable (files options.binary)) (told : cancelled = true)
      (read : KeyRead tape) (unthrown : ¬ KeyThrown tape) : Outcome options files tape cancelled (.ok ())

/-- Where the main thread is at its end, the options, the file and the key say which end it is. -/
theorem end_cases {outcome : Except Exception Unit}
    (run : Process.machine.Run (new (Program.main (some options) files)) tape t)
    (ended : t.main = .code (ended outcome)) (started : t.readers ≠ []) :
    Outcome options files (performed tape) t.fields.cancelled outcome := by
  obtain ⟨codeRun, fieldsRun⟩ := collapsed_run run
  rw [ended] at codeRun
  have ends : Ends (Program.main (some options) files) (performed tape) outcome := codeRun
  have cancelled := ReaderLifetime.cancelled_iff fieldsRun
  have initialized := initialized_of_started ends (exists_start run started)
  obtain ⟨first, rest, same, inits, left⟩ := main_cases ends initialized
  rw [same] at cancelled fieldsRun ⊢
  cases left with
  | scanned scan isUpdating =>
    refine .scanned scan ?_ (not_readKey_of_isUpdating inits isUpdating)
    rw [← Bool.not_eq_true, cancelled]
    exact not_cancelled_of_isUpdating inits isUpdating
  | raised scan updated =>
    refine .raised scan ?_ (not_readKey_of_isUpdating inits (toCode_ends updated).1)
    rw [← update_returns_iff updated]
    simp
  | thrown scan updated =>
    refine .thrown scan ?_ keyThrown_of_breakingOff (not_keyRead_of_breakingOff inits (toCode_ends updated).1 _)
    exact (update_returns_iff updated).mp ⟨_, rfl⟩
  | closed scan updated stopped =>
    have isUpdating := (toCode_ends updated).1
    have told := cancelled.mpr (released_of_stop inits isUpdating stopped fieldsRun).told
    refine .closed scan ?_ told keyRead_of_closing (not_keyThrown_of_closing inits isUpdating stopped)
    exact (update_returns_iff updated).mp ⟨_, rfl⟩

/-- A loop that has been started is still in the list. -/
theorem started_of_run (started : s.readers ≠ []) (run : Process.machine.Run s tape t) : t.readers ≠ [] := by
  refine run.invariant (I := fun _ s => s.readers ≠ []) started ?_
  rintro prior middle event next - holds stepped
  obtain ⟨-, rule⟩ := step_eq_some_iff.mp stepped
  cases rule
  case main => exact ReaderLifetime.startReader_ne_nil holds
  case reader => simpa using holds
  all_goals exact holds

/-- All threads have come to their end. -/
def Finished (s : State) : Prop := s.main = .code (.ret ()) ∧ ∀ pc ∈ s.readers, pc = .ended

/-- A loop whose token is cancelled can end. -/
private theorem exists_loop_end (slot : Option ResponsePacket) (cancelled : o.cancelled = true)
    (uncrashed : isCrashed r = false) :
    ∃ events t, Process.machine.Run ⟨.code (.ret ()), o, slot, [r]⟩ events t ∧ Finished t := by
  have check (slot : Option ResponsePacket) : ∃ events t,
      Process.machine.Run ⟨.code (.ret ()), o, slot, [.check]⟩ events t ∧ Finished t := by
    refine ⟨[.reader 0 (.isCancellationRequested true)], ⟨.code (.ret ()), o, slot, [.ended]⟩,
      reader_cons rfl rfl rfl ?_ (.refl _), rfl, by simp⟩
    simp [Lifetime.readerStep, cancelled, ReviverLoop.afterCheck]
  cases r with
  | check => exact check slot
  | read =>
    obtain ⟨events, t, run, finished⟩ := check slot
    -- a read that fails goes back to the check
    refine ⟨.reader 0 (.canRead o.handle { AnsweredCall.pong with status := -2 }) :: events, t,
      reader_cons rfl rfl rfl ?_ run, finished⟩
    rw [Lifetime.readerStep, if_pos rfl]
    rfl
  | store packet =>
    obtain ⟨events, t, run, finished⟩ := check (some packet)
    refine ⟨.reader 0 (.store packet) :: events, t, reader_cons rfl rfl rfl ?_ run, finished⟩
    simp [Lifetime.readerStep]
  | ended => exact ⟨[], _, .refl _, rfl, by simp⟩
  | crashed e => cases uncrashed

end Ends

section Outcome

variable {options : CommandLineOptions} {files : String → File} {tape : List Process.Event}

/-- The end which the main thread can be brought to, and what is then the case. -/
theorem exists_end (run : Process.machine.Run (new (Program.main (some options) files)) tape s)
    (started : s.readers ≠ []) : ∃ events t outcome, Process.machine.Run s events t ∧
      Process.machine.Run (new (Program.main (some options) files)) (tape ++ events) t ∧
      t.main = .code (ended outcome) ∧ t.readers ≠ [] := by
  obtain ⟨k, -, agrees, -⟩ := agrees_of_run run
  obtain ⟨events, t, later, outcome, ended⟩ := exists_end_of_agrees agrees (loopsSound_of_run run) started
  exact ⟨events, t, outcome, later, run.append later, ended, started_of_run started later⟩

/-- A main thread that has returned from the update lets all loops end. -/
private theorem exists_finished (run : Process.machine.Run (new (Program.main (some options) files)) tape t)
    (returned : t.main = .code (.ret ())) (started : t.readers ≠ []) (cancelled : t.fields.cancelled = true) :
    ∃ events u, Process.machine.Run t events u ∧ Finished u := by
  obtain ⟨k, -, ⟨-, -, reads⟩, -⟩ := agrees_of_run run
  have sound := loopsSound_of_run run
  rcases t with ⟨main, o, slot, readers⟩
  obtain ⟨rfl, -⟩ | rfl := reads
  · exact absurd rfl started
  · obtain rfl : main = .code (.ret ()) := returned
    exact exists_loop_end slot cancelled (sound _ (List.mem_singleton_self _)).1

theorem crashed_of_loopsSound (sound : LoopsSound t) :
    t.crashed = true ↔ ∃ e, t.main = .code (.raise e) := by
  have uncrashed : t.readers.any isCrashed = false := by
    simpa using fun pc member => (sound pc member).1
  rw [State.crashed, uncrashed, Bool.or_false]
  rcases t with ⟨main, -, -, -⟩
  constructor
  · intro raised
    cases main with
    | code rest =>
      cases rest with
      | raise e => exact ⟨e, rfl⟩
      | _ => cases raised
    | _ => cases raised
  · rintro ⟨e, rfl⟩
    rfl

/-- Where `ReadKey` comes to something, it could have come to something else. -/
private theorem exists_other_key {events : List Process.Event} {key : Except Exception Unit}
    (run : Process.machine.Run s events t) (member : ⟨.readKey, key⟩ ∈ performed events)
    (other : Except Exception Unit) :
    ∃ events t, Process.machine.Run s events t ∧ ⟨.readKey, other⟩ ∈ performed events := by
  obtain ⟨event, inside, same⟩ := List.mem_filterMap.mp member
  obtain rfl : event = .main ⟨.readKey, key⟩ := by
    cases event <;> cases same
    rfl
  obtain ⟨before, after, rfl⟩ := List.append_of_mem inside
  obtain ⟨u, reaching, onwards⟩ := Run.append_iff.mp run
  obtain ⟨v, stepped, -⟩ := Run.cons_iff.mp onwards
  obtain ⟨sound, rule⟩ := step_eq_some_iff.mp stepped
  cases rule with
  | @main o o' slot readers _ rest next own moves acts =>
    cases rest with
    | ret value => cases moves
    | raise e => cases moves
    | perform op next =>
      obtain ⟨answer, same, -⟩ := step_perform_iff.mp moves
      cases same
      have reads : Process.Step ⟨.code (.perform .readKey next), o, slot, readers⟩ (.main ⟨.readKey, other⟩)
          ⟨.code (next other), o, slot, Lifetime.startReader readers .readKey⟩ :=
        .main rfl (step_perform_iff.mpr ⟨other, rfl, rfl⟩) rfl
      refine ⟨_, _, Run.concat_iff.mpr ⟨_, reaching, step_eq_some_iff.mpr ⟨sound, reads⟩⟩, ?_⟩
      simp

/-- What `ReadKey` has come to does not change. -/
theorem Outcome.same_key {tape : List Performed} {cancelled : Bool} {outcome : Except Exception Unit}
    (result : Outcome options files tape cancelled outcome) {key other : Except Exception Unit}
    (here : ⟨.readKey, key⟩ ∈ tape) (there : ⟨.readKey, other⟩ ∈ tape) : key.isOk = other.isOk := by
  cases result with
  | scanned scan uncancelled unread => exact absurd here (unread key)
  | raised scan fails unread => exact absurd here (unread key)
  | thrown scan updates throws unread =>
    cases key with
    | ok _ => exact absurd here unread
    | error _ =>
      cases other with
      | ok _ => exact absurd there unread
      | error _ => rfl
  | closed scan updates told read unthrown =>
    cases key with
    | error e => exact absurd ⟨e, here⟩ unthrown
    | ok _ =>
      cases other with
      | error e => exact absurd ⟨e, there⟩ unthrown
      | ok _ => rfl

/-- The end to which the main thread is brought can be one in which `ReadKey` comes to what is wanted of it, unless
it has come to something else before. -/
theorem exists_end_with_key (run : Process.machine.Run (new (Program.main (some options) files)) tape s)
    (started : s.readers ≠ []) (key : Except Exception Unit)
    (before : ∀ other, ⟨.readKey, other⟩ ∈ performed tape → other.isOk = key.isOk) :
    ∃ events t outcome, Process.machine.Run s events t ∧
      Process.machine.Run (new (Program.main (some options) files)) (tape ++ events) t ∧
      t.main = .code (ended outcome) ∧ t.readers ≠ [] ∧
      ∀ other, ⟨.readKey, other⟩ ∈ performed (tape ++ events) → other.isOk = key.isOk := by
  obtain ⟨events, t, outcome, later, whole, ends, still⟩ := exists_end run started
  by_cases wanted : ∀ other, ⟨.readKey, other⟩ ∈ performed (tape ++ events) → other.isOk = key.isOk
  · exact ⟨events, t, outcome, later, whole, ends, still, wanted⟩
  push Not at wanted
  obtain ⟨other, member, different⟩ := wanted
  rw [performed_append] at member
  have inside := (List.mem_append.mp member).resolve_left fun earlier => different (before other earlier)
  obtain ⟨events₁, t₁, reads, here⟩ := exists_other_key later inside key
  obtain ⟨more, u, outcome', onwards, whole', ends', still'⟩ :=
    exists_end (run.append reads) (started_of_run started reads)
  refine ⟨events₁ ++ more, u, outcome', reads.append onwards, by rwa [← List.append_assoc], ends', still', ?_⟩
  intro other' member
  have result := end_cases whole' ends' still'
  rw [← List.append_assoc] at member
  refine result.same_key member ?_
  rw [performed_append, performed_append]
  exact List.mem_append_left _ (List.mem_append_right _ here)

/-- An exception that ends the process is one by which the main thread was left. -/
theorem outcome_of_crashed (run : Process.machine.Run (new (Program.main (some options) files)) tape t)
    (started : t.readers ≠ []) (crashed : t.crashed = true) :
    ∃ e, Outcome options files (performed tape) t.fields.cancelled (.error e) := by
  obtain ⟨e, raised⟩ := (crashed_of_loopsSound (loopsSound_of_run run)).mp crashed
  have ended : t.main = .code (ended (.error e)) := raised
  exact ⟨e, end_cases run ended started⟩

section FromHere

variable (run : Process.machine.Run (new (Program.main (some options) files)) tape s) (started : s.readers ≠ [])
include run started

theorem can_finish_iff : (∃ events t, Process.machine.Run s events t ∧ Finished t) ↔
    options.scan = false ∧ (options.onlineMode = true ∨ Flashable (files options.binary)) ∧
      ¬ KeyThrown (performed tape) := by
  constructor
  · rintro ⟨events, t, later, returned, ends⟩
    have still := started_of_run started later
    have outcome : t.main = .code (ended (.ok ())) := returned
    cases end_cases (run.append later) outcome still with
    | scanned scan uncancelled unread =>
      obtain ⟨pc, member⟩ := List.exists_mem_of_ne_nil _ still
      have cancelled := (loopsSound_of_run (run.append later) pc member).2 (ends pc member)
      simp [uncancelled] at cancelled
    | closed scan updates told read unthrown =>
      refine ⟨scan, updates, fun ⟨e, thrown⟩ => unthrown ⟨e, ?_⟩⟩
      rw [performed_append]
      exact List.mem_append_left _ thrown
  · rintro ⟨scan, updates, unthrown⟩
    have before (other : Except Exception Unit) (member : ⟨.readKey, other⟩ ∈ performed tape) :
        other.isOk = (Except.ok () : Except Exception Unit).isOk := by
      cases other with
      | ok _ => rfl
      | error e => exact absurd ⟨e, member⟩ unthrown
    obtain ⟨events, t, outcome, later, whole, ended, still, wanted⟩ :=
      exists_end_with_key run started (.ok ()) before
    cases end_cases whole ended still with
    | scanned other => cases scan.symm.trans other
    | raised _ fails => exact absurd updates fails
    | thrown _ _ throws =>
      obtain ⟨e, member⟩ := throws
      cases wanted _ member
    | closed _ _ told =>
      obtain ⟨more, u, last, finished⟩ := exists_finished whole ended still told
      exact ⟨_, u, later.append last, finished⟩

end FromHere

end Outcome

end OtaCli.Soundness.ProcessProgress
