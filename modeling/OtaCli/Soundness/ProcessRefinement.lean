import OtaCli.Proofs.FlashFrames
import OtaCli.Proofs.MainCode
import OtaCli.Soundness.AnsweredCall
import OtaCli.Soundness.ReaderLifetime

/-! # The process refines the models of its parts

What is proved of the interface is proved of two threads with an updater in one of them. `Main` is more: it
opens the channel before there is a second thread, it reports failed writes in the middle of a call, and it
goes on when the updater has returned. Still every run of the process is a run of the interface with the
updater it has chosen, and its main thread's operations, with each call as one, are a run of its code.
-/

namespace OtaCli.Soundness.ProcessRefinement

open Model Model.Process Interaction LabeledMachine Proofs.Release Proofs.MainCode

section Stages

variable (options : CommandLineOptions) (files : String → File)

/-- The main thread when a call of the updater returns. -/
def resumed (next : Option ResponsePacket → Client Bool) (response : Option ResponsePacket) : Code Unit :=
  (next response).toCode >>= fun _ => finish (chosen options files)

/-- Where the process stands, and its sender in the interface. Up to the end of `Init` there is no loop, and
then there is one; the token is cancelled only after the update. -/
inductive Stage : State → SenderPc Bool → Prop
  | opening {o slot op next} (only : (.perform op next : Code Bool).Only IsBefore)
      (marks : (.perform op next : Code Bool).Marks (· = .startReader) (· = false))
      (finishes : (.perform op next : Code Bool).Finishes (· = .startReader) true)
      (uncancelled : o.cancelled = false) :
      Stage ⟨.code (.perform op fun answer => next answer >>= afterInit options files), o, slot, []⟩
        (.client (updating options files))
  | unavailable {o slot p} (only : (p : Code Unit).Only IsLeaving) (uncancelled : o.cancelled = false) :
      Stage ⟨.code p, o, slot, []⟩ (.client (updating options files))
  | scanning {o slot p r} (scan : options.scan = true) (only : (p : Code Unit).Only IsLeaving)
      (uncancelled : o.cancelled = false) :
      Stage ⟨.code p, o, slot, [r]⟩ (.client (updating options files))
  | updating {o slot client r} (scan : options.scan = false) (uncancelled : o.cancelled = false) :
      Stage ⟨.code (client.toCode >>= fun _ => finish (chosen options files)), o, slot, [r]⟩ (.client client)
  | checkWrite {o slot cmd next op after r} (scan : options.scan = false) (uncancelled : o.cancelled = false)
      (returns : (.perform op after : Code Bool).Returns) :
      Stage ⟨.checkWrite ⟨cmd, resumed options files next⟩ (.perform op after), o, slot, [r]⟩
        (.writeSync ⟨cmd, next⟩)
  | writeSync {o slot cmd next r} (scan : options.scan = false) (uncancelled : o.cancelled = false) :
      Stage ⟨.writeSync ⟨cmd, resumed options files next⟩, o, slot, [r]⟩ (.writeSync ⟨cmd, next⟩)
  | checkWriteSync {o slot cmd next op after r} (scan : options.scan = false)
      (uncancelled : o.cancelled = false) (returns : (.perform op after : Code Bool).Returns) :
      Stage ⟨.checkWriteSync ⟨cmd, resumed options files next⟩ (.perform op after), o, slot, [r]⟩
        (.loopTest ⟨cmd, next⟩ none)
  | loopTest {o slot cmd next response r} (scan : options.scan = false) (uncancelled : o.cancelled = false) :
      Stage ⟨.loopTest ⟨cmd, resumed options files next⟩ response, o, slot, [r]⟩
        (.loopTest ⟨cmd, next⟩ response)
  | loopBody {o slot cmd next r} (scan : options.scan = false) (uncancelled : o.cancelled = false) :
      Stage ⟨.loopBody ⟨cmd, resumed options files next⟩, o, slot, [r]⟩ (.loopBody ⟨cmd, next⟩)
  | clear {o slot cmd next response r} (scan : options.scan = false) (uncancelled : o.cancelled = false) :
      Stage ⟨.clear ⟨cmd, resumed options files next⟩ response, o, slot, [r]⟩ (.clear ⟨cmd, next⟩ response)
  | closing {o slot p r} (scan : options.scan = false) (value : Bool) (ending : Ending p o.cancelled) :
      Stage ⟨.code p, o, slot, [r]⟩ (.client (.ret value))

/-- The process and the interface agree on the threads and on what they share. -/
structure Agrees (s : State) (k : KvaserState Bool) : Prop where
  stage : Stage options files s k.sender
  slot : k.responsePacket = s.responsePacket
  reader : s.readers = [] ∧ k.reader = .check ∨ s.readers = [k.reader]

variable {options files} {o o' : KvaserInterface.Fields} {slot : Option ResponsePacket}
  {event : Performed} {s t : State} {k : KvaserState Bool}

/-- Where `Init` stands before the loop is started, or when it has returned after that. -/
theorem stage_of_init {p : Code Bool} {readers : List ReaderPc} (uncancelled : o.cancelled = false)
    (stands : readers = [] ∧ p.Only IsBefore ∧ p.Marks (· = .startReader) (· = false) ∧
      p.Finishes (· = .startReader) true ∨ ∃ r, readers = [r] ∧ p = .ret true) :
    Stage options files ⟨.code (p >>= afterInit options files), o, slot, readers⟩
      (.client (updating options files)) := by
  obtain ⟨rfl, only, marks, finishes⟩ | ⟨r, rfl, rfl⟩ := stands
  · cases p with
    | ret value =>
      obtain rfl : value = false := marks
      exact .unavailable unavailable_leaving uncancelled
    | raise e => exact .unavailable (p := .raise e) trivial uncancelled
    | perform op next => exact .opening only marks finishes uncancelled
  · cases scan : options.scan with
    | true =>
      have code : afterInit options files true = scanning := by simp [afterInit, scan]
      rw [ret_bind, code]
      exact .scanning scan scanning_leaving uncancelled
    | false =>
      have code : afterInit options files true =
          (updating options files).toCode >>= fun _ => finish (chosen options files) := by
        simp [afterInit, scan]
      rw [ret_bind, code]
      exact .updating scan uncancelled

private theorem agrees_new : Agrees options files (new (Program.main (some options) files))
    (KvaserInterface.start (updating options files)) := by
  refine ⟨?_, rfl, .inl ⟨rfl, rfl⟩⟩
  rw [main_eq]
  exact stage_of_init rfl (.inl ⟨rfl, init_before _ _, KvaserInterface.init_marks _ _,
    KvaserInterface.init_finishes _ _⟩)

private theorem uncancelled_of_step (uncancelled : o.cancelled = false) (other : event.1 ≠ .cancel)
    (acts : o.step event = some o') : o'.cancelled = false := by
  by_contra cancelled
  rw [Bool.not_eq_false, ReaderLifetime.cancelled_of_step acts] at cancelled
  exact cancelled.elim (by simp [uncancelled]) other

private theorem ending_step {p q : Code Unit} (ending : Ending p o.cancelled)
    (moves : (Interaction.machine _ _ _).step p event = some q) (acts : o.step event = some o') :
    Ending q o'.cancelled := by
  refine ⟨(ending.only.step moves).2, ?_⟩
  rw [ReaderLifetime.cancelled_of_step acts]
  obtain cancelled | marks := ending.marks
  · exact .inl (.inl cancelled)
  · exact (marks.step moves).imp .inr id

/-- The line which tells that the upload is complete. -/
def uploadComplete : Process.Event := .main ⟨.writeLine (.text "upload complete"), ()⟩

/-- An operation that the interface does not notice leaves it where it is. -/
theorem Agrees.unseen (agrees : Agrees options files s k) (silent : IsSilent event.1)
    (stage : Stage options files t k.sender) (slot : t.responsePacket = s.responsePacket)
    (reader : t.readers = [] ∧ k.reader = .check ∨ t.readers = [k.reader]) :
    ∃ k', (KvaserInterface.machine Bool).Run k (Process.Event.main event).interface?.toList k' ∧
      Agrees options files t k' ∧ (.main event = uploadComplete → ∃ value, k'.sender = .client (.ret value)) := by
  refine ⟨k, by rw [silent.unseen]; exact .refl k, ⟨stage, agrees.slot.trans slot.symm, reader⟩, ?_⟩
  intro complete
  exact absurd (Process.Event.main.inj complete) silent.incomplete

/-- An operation of the main thread's code, in whichever stage. -/
theorem Agrees.main_step (agrees : Agrees options files s k) (stepped : Step s (.main event) t) :
    ∃ k', (KvaserInterface.machine Bool).Run k (Process.Event.main event).interface?.toList k' ∧
      Agrees options files t k' ∧ (.main event = uploadComplete → ∃ value, k'.sender = .client (.ret value)) := by
  have ⟨stage, sameSlot, reads⟩ := agrees
  rcases k with ⟨slot, sender, reader⟩
  cases stage
  case opening o packet op next only marks finishes uncancelled =>
    obtain ⟨own, moves, acts⟩ := stepped
    obtain ⟨answer, rfl, rfl⟩ := step_perform_iff.mp moves
    have still := uncancelled_of_step uncancelled only.1.2 acts
    obtain ⟨-, idle⟩ := reads.resolve_right nofun
    by_cases starts : op = .startReader
    · have returned := finishes.1 starts answer
      refine agrees.unseen only.1.1 (stage_of_init still (.inr ⟨.check, ?_, returned⟩)) rfl (.inr ?_)
      · simp [Lifetime.startReader, starts]
      · simpa [Lifetime.startReader, starts] using idle.symm
    · have later := (marks.resolve_left starts) answer
      have alone : Lifetime.startReader [] op = [] := startReader_of_ne starts
      refine agrees.unseen only.1.1 (stage_of_init still (.inl ⟨alone, only.2 answer, later, ?_⟩)) rfl
        (.inl ⟨alone, idle⟩)
      exact finishes.2 answer
  case unavailable o packet p only uncancelled =>
    obtain ⟨own, moves, acts⟩ := stepped
    obtain ⟨⟨silent, unstarted, other⟩, rest⟩ := only.step moves
    rw [startReader_of_ne unstarted]
    exact agrees.unseen silent (.unavailable rest (uncancelled_of_step uncancelled other acts)) rfl reads
  case scanning o packet p r scan only uncancelled =>
    obtain ⟨own, moves, acts⟩ := stepped
    obtain ⟨⟨silent, unstarted, other⟩, rest⟩ := only.step moves
    rw [startReader_of_ne unstarted]
    have still := uncancelled_of_step uncancelled other acts
    exact agrees.unseen silent (.scanning scan rest still) rfl reads
  case closing o packet p r scan value ending =>
    obtain ⟨own, moves, acts⟩ := stepped
    obtain ⟨⟨silent, unstarted⟩, -⟩ := ending.only.step moves
    rw [startReader_of_ne unstarted]
    exact agrees.unseen silent (.closing scan value (ending_step ending moves acts)) rfl reads
  case updating o packet client r scan uncancelled =>
    generalize code : (client.toCode >>= fun _ => finish (chosen options files)) = p at stepped
    obtain ⟨own, moves, acts⟩ := stepped
    rw [← code] at moves
    cases client with
    | ret value =>
      obtain ⟨rest, shape, after⟩ := finish_after options files
      rw [Client.toCode, ret_bind, shape] at moves
      obtain ⟨_, rfl, rfl⟩ := step_perform_iff.mp moves
      cases acts
      exact ⟨_, .refl _, ⟨.closing scan value (uncancelled ▸ after), sameSlot, reads⟩,
        fun _ => ⟨value, rfl⟩⟩
    | raise e => cases moves
    | writeLine number next =>
      obtain ⟨_, rfl, rfl⟩ := step_perform_iff.mp moves
      cases acts
      exact ⟨_, Run.singleton_iff.mpr (KvaserInterface.step_eq_some_iff.mpr .writeLine),
        ⟨.updating scan uncancelled, sameSlot, reads⟩, by simp [uploadComplete]⟩
    | writeCmdMsgRsp cmd next =>
      obtain ⟨_, rfl, rfl⟩ := step_perform_iff.mp moves
      cases own
  all_goals cases stepped

section Calls

variable {cmd : CommandPacket} {next : Option ResponsePacket → Client Bool} {rest : Code Bool} {r : ReaderPc}

private theorem stage_wrote (scan : options.scan = false) (uncancelled : o.cancelled = false) (returns : rest.Returns) :
    Stage options files ⟨.wrote ⟨cmd, resumed options files next⟩ rest, o, slot, [r]⟩
      (.writeSync ⟨cmd, next⟩) := by
  cases rest with
  | ret value => exact .writeSync scan uncancelled
  | raise e => exact returns.elim
  | perform op after => exact .checkWrite scan uncancelled returns

private theorem stage_synced (scan : options.scan = false) (uncancelled : o.cancelled = false)
    (returns : rest.Returns) :
    Stage options files ⟨.synced ⟨cmd, resumed options files next⟩ rest, o, slot, [r]⟩
      (.loopTest ⟨cmd, next⟩ none) := by
  cases rest with
  | ret value => exact .loopTest scan uncancelled
  | raise e => exact returns.elim
  | perform op after => exact .checkWriteSync scan uncancelled returns

end Calls

/-- A statement of a call, or what `CheckForError` does in it. -/
theorem Agrees.call_step {event : Process.Event} (agrees : Agrees options files s k) (stepped : Step s event t)
    (main : ∀ e, event ≠ .main e) (reader : ∀ i e, event ≠ .reader i e) :
    ∃ k', (KvaserInterface.machine Bool).Run k event.interface?.toList k' ∧ Agrees options files t k' := by
  have ⟨stage, sameSlot, reads⟩ := agrees
  rcases k with ⟨slot, sender, reader⟩
  have moved {e : Model.Event} {k k' : KvaserState Bool} (rule : KvaserInterface.Step k e k') :
      (KvaserInterface.machine Bool).Run k [e] k' :=
    Run.singleton_iff.mpr (KvaserInterface.step_eq_some_iff.mpr rule)
  cases stepped
  case main => exact absurd rfl (main _)
  case reader => exact absurd rfl (reader _ _)
  case canWrite o packet readers cmd after status =>
    generalize code : (.perform (.writeCmdMsgRsp cmd) after : Code Unit) = p at stage
    cases stage
    case opening op next only marks finishes uncancelled =>
      cases code
      exact only.1.1.elim
    case unavailable only uncancelled => exact (code ▸ only).1.1.elim
    case scanning scan only uncancelled => exact (code ▸ only).1.1.elim
    case closing scan value ending => exact (code ▸ ending.only).1.1.elim
    case updating client r scan uncancelled =>
      cases client with
      | ret value =>
        obtain ⟨rest, shape, -⟩ := finish_after options files
        rw [Client.toCode, ret_bind, shape] at code
        cases code
      | raise e => cases code
      | writeLine number next => cases code
      | writeCmdMsgRsp called next =>
        cases code
        exact ⟨_, moved (.canWrite status), stage_wrote scan uncancelled (checkForError_returns _ _), sameSlot,
          reads⟩
  case canWriteSync status =>
    cases stage with | writeSync scan uncancelled =>
    exact ⟨_, moved (.canWriteSync status), stage_synced scan uncancelled (checkForError_returns _ _), sameSlot,
      reads⟩
  case reportWrite moves =>
    cases stage with | checkWrite scan uncancelled returns =>
    exact ⟨_, .refl _, stage_wrote scan uncancelled (returns.step moves), sameSlot, reads⟩
  case reportSync moves =>
    cases stage with | checkWriteSync scan uncancelled returns =>
    exact ⟨_, .refl _, stage_synced scan uncancelled (returns.step moves), sameSlot, reads⟩
  case loopAgain =>
    obtain rfl : slot = none := sameSlot
    cases stage with | loopTest scan uncancelled =>
    exact ⟨_, moved .loopAgain, .loopBody scan uncancelled, rfl, reads⟩
  case loopExit packet =>
    obtain rfl : slot = some packet := sameSlot
    cases stage with | loopTest scan uncancelled =>
    exact ⟨_, moved .loopExit, .clear scan uncancelled, rfl, reads⟩
  case loopBody =>
    obtain rfl := sameSlot
    cases stage with | loopBody scan uncancelled =>
    exact ⟨_, moved .loopBody, .loopTest scan uncancelled, rfl, reads⟩
  case clear =>
    cases stage with | clear scan uncancelled =>
    exact ⟨_, moved .clear, .updating scan uncancelled, rfl, reads⟩

theorem Stage.reader {main : MainPc} {r moved : ReaderPc} {slot' : Option ResponsePacket}
    {sender : SenderPc Bool} (stage : Stage options files ⟨main, o, slot, [r]⟩ sender) :
    Stage options files ⟨main, o, slot', [moved]⟩ sender := by
  cases stage
  case scanning scan only uncancelled => exact .scanning scan only uncancelled
  case updating scan uncancelled => exact .updating scan uncancelled
  case checkWrite => exact .checkWrite ‹_› ‹_› ‹_›
  case writeSync scan uncancelled => exact .writeSync scan uncancelled
  case checkWriteSync => exact .checkWriteSync ‹_› ‹_› ‹_›
  case loopTest scan uncancelled => exact .loopTest scan uncancelled
  case loopBody scan uncancelled => exact .loopBody scan uncancelled
  case clear scan uncancelled => exact .clear scan uncancelled
  case closing scan value ending => exact .closing scan value ending

/-- A step of the one loop there can be. -/
theorem Agrees.reader_step {i : ℕ} {event : Lifetime.ReaderEvent} (agrees : Agrees options files s k)
    (stepped : Step s (.reader i event) t) :
    ∃ k', (KvaserInterface.machine Bool).Run k (Process.Event.reader i event).interface?.toList k' ∧
      Agrees options files t k' := by
  have ⟨stage, sameSlot, reads⟩ := agrees
  rcases k with ⟨slot, sender, pc⟩
  cases stepped with | @reader main o packet readers _ _ r next stands moves =>
  obtain rfl : slot = packet := sameSlot
  obtain ⟨rfl, -⟩ | rfl := reads
  · simp at stands
  obtain ⟨rfl, rfl⟩ : i = 0 ∧ pc = r := by simpa [List.getElem?_singleton] using stands
  refine ⟨⟨Lifetime.storeResponse slot event, sender, next⟩, ?_, stage.reader, rfl, .inr rfl⟩
  obtain ⟨rfl, rfl, rfl⟩ | ⟨rfl, result, rfl, rfl⟩ | ⟨packet, rfl, rfl, rfl⟩ :=
    Lifetime.readerStep_cases moves
  · exact Run.singleton_iff.mpr (KvaserInterface.step_eq_some_iff.mpr (.isCancellationRequested _))
  · exact Run.singleton_iff.mpr (KvaserInterface.step_eq_some_iff.mpr (.canRead result))
  · exact Run.singleton_iff.mpr (KvaserInterface.step_eq_some_iff.mpr .store)

/-- Each step of the process is a step of the interface, or one which the interface does not notice. -/
theorem Agrees.step {event : Process.Event} (agrees : Agrees options files s k) (stepped : Step s event t) :
    ∃ k', (KvaserInterface.machine Bool).Run k event.interface?.toList k' ∧ Agrees options files t k' ∧
      (event = uploadComplete → ∃ value, k'.sender = .client (.ret value)) := by
  by_cases main : ∃ e, event = .main e
  · obtain ⟨e, rfl⟩ := main
    exact agrees.main_step stepped
  · by_cases reader : ∃ i e, event = .reader i e
    · obtain ⟨i, e, rfl⟩ := reader
      obtain ⟨k', run, holds⟩ := agrees.reader_step stepped
      exact ⟨k', run, holds, nofun⟩
    · push Not at main reader
      obtain ⟨k', run, holds⟩ := agrees.call_step stepped main reader
      exact ⟨k', run, holds, fun complete => absurd complete (main _)⟩

/-- An updater that has returned does nothing any more. -/
private theorem returned_of_run {k' : KvaserState Bool} {value : Bool} {events : List Model.Event}
    (returned : k.sender = .client (.ret value)) (run : (KvaserInterface.machine Bool).Run k events k') :
    k'.sender = .client (.ret value) := by
  refine run.invariant (I := fun _ k => k.sender = .client (.ret value)) returned ?_
  rintro prior ⟨slot, sender, reader⟩ event next - rfl stepped
  cases KvaserInterface.step_eq_some_iff.mp stepped <;> rfl

private theorem process_simulates : Simulates Process.machine (KvaserInterface.machine Bool) Process.Event.interface?
    (fun tape s k => Agrees options files s k ∧
      (uploadComplete ∈ tape → ∃ value, k.sender = .client (.ret value)))
    (new (Program.main (some options) files)) := by
  constructor
  rintro tape s k event t - ⟨agrees, complete⟩ stepped
  obtain ⟨-, rule⟩ := step_eq_some_iff.mp stepped
  obtain ⟨k', run, holds, now⟩ := agrees.step rule
  refine ⟨k', run, holds, fun member => ?_⟩
  rcases List.mem_append.mp member with earlier | here
  · obtain ⟨value, returned⟩ := complete earlier
    exact ⟨value, returned_of_run returned run⟩
  · exact now (List.mem_singleton.mp here).symm

variable {tape : List Process.Event}

theorem agrees_of_run (run : Process.machine.Run (new (Program.main (some options) files)) tape s) :
    ∃ k, (KvaserInterface.machine Bool).Run (KvaserInterface.start (updating options files))
        (interfaceEvents tape) k ∧
      Agrees options files s k ∧ (uploadComplete ∈ tape → ∃ value, k.sender = .client (.ret value)) :=
  process_simulates.run ⟨agrees_new, by simp⟩ run

end Stages

section Collapsed

/-- The code of the main thread, a call under way being still to be made. -/
def remaining : MainPc → Code Unit
  | .code rest => rest
  | .checkWrite call _ | .writeSync call | .checkWriteSync call _ | .loopTest call _ | .loopBody call
  | .clear call _ => .perform (.writeCmdMsgRsp call.cmd) call.next

@[simp] theorem remaining_wrote (call : Activation) (p : Code Bool) :
    remaining (.wrote call p) = .perform (.writeCmdMsgRsp call.cmd) call.next := by cases p <;> rfl

@[simp] theorem remaining_synced (call : Activation) (p : Code Bool) :
    remaining (.synced call p) = .perform (.writeCmdMsgRsp call.cmd) call.next := by cases p <;> rfl

/-- Seen from its code, the main thread runs alone, and every call is one operation. -/
theorem collapsed_run {code : Code Unit} {tape : List Process.Event} {s : State}
    (run : Process.machine.Run (new code) tape s) :
    (Interaction.machine _ _ _).Run code (performed tape) (remaining s.main) ∧
      KvaserInterface.Fields.machine.Run {} (performed tape) s.fields := by
  refine run.invariant (I := fun tape s => (Interaction.machine _ _ _).Run code (performed tape) (remaining s.main) ∧
    KvaserInterface.Fields.machine.Run {} (performed tape) s.fields) ⟨.refl _, .refl _⟩ ?_
  rintro prior middle event next - ⟨codeRun, fieldsRun⟩ stepped
  obtain ⟨-, rule⟩ := step_eq_some_iff.mp stepped
  rw [performed_concat]
  cases rule
  case main own moves acts =>
    exact ⟨Run.concat_iff.mpr ⟨_, codeRun, moves⟩, Run.concat_iff.mpr ⟨_, fieldsRun, acts⟩⟩
  case clear =>
    exact ⟨Run.concat_iff.mpr ⟨_, codeRun, step_perform_iff.mpr ⟨_, rfl, rfl⟩⟩,
      Run.concat_iff.mpr ⟨_, fieldsRun, rfl⟩⟩
  all_goals
    simp only [Process.Event.performed?, Option.toList_none, List.append_nil]
    refine ⟨?_, fieldsRun⟩
    first
    | exact codeRun
    | rw [remaining_wrote]; exact codeRun
    | rw [remaining_synced]; exact codeRun

end Collapsed

section Lifted

variable {o o' : KvaserInterface.Fields} {slot : Option ResponsePacket} {readers : List ReaderPc} {s t : State}
  {events : List Process.Event}

/-- The loops after some operations of the main thread. -/
def readersAfter (readers : List ReaderPc) (tape : List Performed) : List ReaderPc :=
  tape.foldl (fun readers event => Lifetime.startReader readers event.1) readers

private theorem sound_startReader {op : Op} (sound : readers.any isCrashed = false) :
    (Lifetime.startReader readers op).any isCrashed = false := by
  by_cases starts : op = .startReader
  · simpa [Lifetime.startReader, starts, isCrashed] using sound
  · rwa [startReader_of_ne starts]

/-- A step of a process which no exception has ended. -/
theorem step_cons {main : MainPc} {event : Process.Event} (unraised : main.hasRaised = false)
    (sound : readers.any isCrashed = false) (stepped : Step ⟨main, o, slot, readers⟩ event s)
    (run : Process.machine.Run s events t) : Process.machine.Run ⟨main, o, slot, readers⟩ (event :: events) t :=
  stepped.cons (by simp [State.crashed, unraised, sound]) run

/-- A step of a loop. -/
theorem reader_cons {main : MainPc} {i : ℕ} {pc moved : ReaderPc} {event : Lifetime.ReaderEvent}
    (unraised : main.hasRaised = false) (sound : readers.any isCrashed = false) (stands : readers[i]? = some pc)
    (moves : Lifetime.readerStep o pc event = some moved)
    (run : Process.machine.Run ⟨main, o, Lifetime.storeResponse slot event, readers.set i moved⟩ events t) :
    Process.machine.Run ⟨main, o, slot, readers⟩ (.reader i event :: events) t :=
  step_cons unraised sound (.reader stands moves) run

/-- What the code can do by itself, the main thread can do in the process. -/
theorem main_run (slot : Option ResponsePacket) {p q : Code Unit} {tape : List Performed}
    (run : (Interaction.machine _ _ _).Run p tape q) (fields : KvaserInterface.Fields.machine.Run o tape o')
    (uncalled : ∀ event ∈ tape, isCall event.1 = false) (sound : readers.any isCrashed = false) :
    Process.machine.Run ⟨.code p, o, slot, readers⟩ (tape.map .main)
      ⟨.code q, o', slot, readersAfter readers tape⟩ := by
  induction tape generalizing p o readers with
  | nil =>
    obtain rfl := Run.nil_iff.mp run
    obtain rfl := Run.nil_iff.mp fields
    exact .refl _
  | cons event rest ih =>
    obtain ⟨p₁, moves, run⟩ := Run.cons_iff.mp run
    obtain ⟨o₁, acts, fields⟩ := Run.cons_iff.mp fields
    obtain ⟨own, uncalled⟩ := List.forall_mem_cons.mp uncalled
    have unraised : MainPc.hasRaised (.code p) = false := by
      cases p with
      | raise e => cases moves
      | _ => rfl
    exact step_cons unraised sound (.main own moves acts) (ih run fields uncalled (sound_startReader sound))

/-- The one channel there is is opened, whatever the driver answers to it. -/
theorem opening_run (options : CommandLineOptions) (files : String → File) (first : options.interface = 0)
    (answers : KvaserInterface.Opening) :
    Process.machine.Run (new (Program.main (some options) files))
      ((KvaserInterface.oneChannel ++ answers.performed 0 KvaserInterface.canBITRATE_500K).map .main)
      ⟨.code (afterInit options files true), { interfaces := [(0, "Leaf")], handle := answers.handle }, none,
        readersAfter [] (KvaserInterface.oneChannel ++ answers.performed 0 KvaserInterface.canBITRATE_500K)⟩ := by
  have ends := KvaserInterface.oneChannel_ends answers KvaserInterface.canBITRATE_500K
  have code : (Interaction.machine _ _ _).Run (Program.main (some options) files)
      (KvaserInterface.oneChannel ++ answers.performed 0 KvaserInterface.canBITRATE_500K)
      (afterInit options files true) := by
    rw [main_eq, first]
    exact run_bind ends
  exact main_run none code (KvaserInterface.oneChannel_run _ _ false)
    (fun event member => ((init_before _ _).run ends event member).1.uncalled) rfl

/-- It is opened, and the loop is about to check for the first time. -/
theorem opened_run (options : CommandLineOptions) (files : String → File) (first : options.interface = 0) :
    Process.machine.Run (new (Program.main (some options) files)) (firstOpened.map .main)
      ⟨.code (afterInit options files true), { interfaces := [(0, "Leaf")], handle := 0 }, none, [.check]⟩ :=
  opening_run options files first ⟨0, canOK, canOK, ("", "", "")⟩

/-- One call in the process: the driver succeeds, and the response comes while the call waits. -/
def orderlyCall (handle : Int32) (cmd : CommandPacket) (r : ReadResult) : List Process.Event :=
  [.canWrite handle cmd canOK, .canWriteSync handle canTimeout canOK, .loopTest none,
    .reader 0 (.isCancellationRequested false), .reader 0 (.canRead handle r), .reader 0 (.store r.parsed),
    .loopBody (some r.parsed), .loopTest (some r.parsed), .clear cmd (some r.parsed)]

theorem orderlyCall_run {r : ReadResult} (response : r.IsResponse) (uncancelled : o.cancelled = false)
    (cmd : CommandPacket) (next : Option ResponsePacket → Code Unit) :
    Process.machine.Run ⟨.code (.perform (.writeCmdMsgRsp cmd) next), o, none, [.check]⟩
      (orderlyCall o.handle cmd r) ⟨.code (next (some r.parsed)), o, none, [.check]⟩ := by
  have checks : Lifetime.readerStep o .check (.isCancellationRequested false) = some .read := by
    simp [Lifetime.readerStep, uncancelled, ReviverLoop.afterCheck]
  have reads : Lifetime.readerStep o .read (.canRead o.handle r) = some (.store r.parsed) := by
    simp [Lifetime.readerStep, AnsweredCall.afterRead_of_isResponse response]
  have stores : Lifetime.readerStep o (.store r.parsed) (.store r.parsed) = some .check := by
    simp [Lifetime.readerStep]
  refine step_cons rfl rfl (.canWrite canOK) ?_
  refine step_cons rfl rfl (.canWriteSync canOK) ?_
  refine step_cons rfl rfl .loopAgain ?_
  refine reader_cons rfl rfl rfl checks ?_
  refine reader_cons rfl rfl rfl reads ?_
  refine reader_cons rfl rfl rfl stores ?_
  refine step_cons rfl rfl .loopBody ?_
  refine step_cons rfl rfl .loopExit ?_
  exact step_cons rfl rfl .clear (.refl _)

/-- The channel is opened, and the first call of a flash is answered. -/
def begun (content : List UInt8) : List Process.Event :=
  firstOpened.map .main ++
    orderlyCall 0 (FileUpdater.lengthPacket Commands.FLASH_BEGIN 0 content.length) AnsweredCall.pong

theorem begun_run (content : List UInt8) (readable : content.length ≤ FileUpdater.maxLength) :
    ∃ s, Process.machine.Run (new (Program.main (some { interface := 0 }) fun _ => .ok content)) (begun content) s ∧
      s.readers = [.check] := by
  have code : updating { interface := 0 } (fun _ => .ok content) = FileUpdater.update (.ok content) 0 := by
    simp only [updating, chosen, fileUpdater, Bool.false_eq_true, if_false]
  have opened := opened_run { interface := 0 } (fun _ => .ok content) rfl
  rw [afterInit, if_pos rfl, if_neg Bool.false_ne_true, code, Proofs.FlashTranscript.update_eq 0 readable,
    Client.toCode, perform_bind] at opened
  exact ⟨_, opened.append (orderlyCall_run AnsweredCall.pong_isResponse rfl _ _), rfl⟩

end Lifted

section Refinement

variable {tape : List Process.Event} {s : State}

/-- The whole process refines the two threads of the interface: whatever `Main` does before the update, in the
middle of its calls and after it, the frames, the numbers on the console and the accesses to the slot are a
run of the interface with the chosen updater, the slot and the loop are the same, and once it is told that the
upload is complete the updater has returned. -/
theorem refines_interface (options : CommandLineOptions) (files : String → File)
    (run : Process.machine.Run (new (Program.main (some options) files)) tape s) :
    ∃ k, (KvaserInterface.machine Bool).Run (KvaserInterface.start (updating options files))
        (interfaceEvents tape) k ∧
      k.responsePacket = s.responsePacket ∧ (s.readers = [] ∧ k.reader = .check ∨ s.readers = [k.reader]) ∧
      (uploadComplete ∈ tape → ∃ value, k.sender = .client (.ret value)) := by
  obtain ⟨k, inner, agrees, complete⟩ := agrees_of_run run
  exact ⟨k, inner, agrees.slot, agrees.reader, complete⟩

theorem refines_interface_of_begun :
    ∃ s k, Process.machine.Run (new (Program.main (some { interface := 0 }) fun _ => .ok [1, 2, 3, 4]))
        (begun [1, 2, 3, 4]) s ∧
      (KvaserInterface.machine Bool).Run
        (KvaserInterface.start (updating { interface := 0 } fun _ => .ok [1, 2, 3, 4]))
        (interfaceEvents (begun [1, 2, 3, 4])) k ∧
      k.responsePacket = s.responsePacket ∧ s.readers = [k.reader] ∧
      written (interfaceEvents (begun [1, 2, 3, 4])) = [FileUpdater.lengthPacket Commands.FLASH_BEGIN 0 4] := by
  obtain ⟨s, run, started⟩ := begun_run [1, 2, 3, 4] (by decide)
  obtain ⟨k, inner, slot, reads, -⟩ := refines_interface { interface := 0 } (fun _ => .ok [1, 2, 3, 4]) run
  exact ⟨s, k, run, inner, slot, reads.resolve_left (by simp [started]), rfl⟩

/-- The command of a call, and what the call has returned. -/
def call? : Performed → Option (CommandPacket × Option ResponsePacket)
  | ⟨.writeCmdMsgRsp cmd, returned⟩ => some (cmd, returned)
  | _ => none

/-- The calls of a tape. -/
def calls (tape : List Performed) : List (CommandPacket × Option ResponsePacket) := tape.filterMap call?

/-- The call that the main thread is in. -/
def underWay : MainPc → Option CommandPacket
  | .code _ => none
  | .checkWrite call _ | .writeSync call | .checkWriteSync call _ | .loopTest call _ | .loopBody call
  | .clear call _ => some call.cmd

private theorem underWay_wrote (call : Activation) (p : Code Bool) : underWay (.wrote call p) = some call.cmd := by
  cases p <;> rfl

private theorem underWay_synced (call : Activation) (p : Code Bool) : underWay (.synced call p) = some call.cmd := by
  cases p <;> rfl

/-- What is no call writes nothing and ends no call. -/
private theorem silent_of_main {event : Performed} (own : isCall event.1 = false) : call? event = none ∧
    written (Process.Event.main event).interface?.toList = [] ∧
    returned (Process.Event.main event).interface?.toList = [] := by
  rcases event with ⟨op, answer⟩
  cases op
  case writeLine line => cases line <;> exact ⟨rfl, rfl, rfl⟩
  case writeCmdMsgRsp => cases own
  all_goals exact ⟨rfl, rfl, rfl⟩

/-- The calls of the code are the frames written, one for each but the one under way, and they have returned
what was handed over when the slot was cleared. -/
private theorem calls_eq {code : Code Unit} (run : Process.machine.Run (new code) tape s) :
    written (interfaceEvents tape) = (calls (performed tape)).map Prod.fst ++ (underWay s.main).toList ∧
      returned (interfaceEvents tape) = (calls (performed tape)).map Prod.snd := by
  refine run.invariant (I := fun tape s =>
    written (interfaceEvents tape) = (calls (performed tape)).map Prod.fst ++ (underWay s.main).toList ∧
      returned (interfaceEvents tape) = (calls (performed tape)).map Prod.snd) ⟨rfl, rfl⟩ ?_
  rintro prior middle event next - ⟨commands, answers⟩ stepped
  obtain ⟨-, rule⟩ := step_eq_some_iff.mp stepped
  have split (tail : List Model.Event) : written (interfaceEvents prior ++ tail) =
      written (interfaceEvents prior) ++ written tail ∧
      returned (interfaceEvents prior ++ tail) = returned (interfaceEvents prior) ++ returned tail :=
    ⟨List.filterMap_append, List.filterMap_append⟩
  have joined (tail : List Performed) : calls (performed prior ++ tail) = calls (performed prior) ++ calls tail :=
    List.filterMap_append
  rw [interfaceEvents_concat, performed_concat, (split _).1, (split _).2, joined, commands, answers]
  cases rule
  case main own moves acts =>
    obtain ⟨uncalled, unwritten, unreturned⟩ := silent_of_main own
    rw [unwritten, unreturned]
    simp [calls, uncalled, underWay]
  case reader event _ _ stands moves =>
    cases event <;> simp [written, returned, calls]
  case canWrite => rw [underWay_wrote]; simp [written, returned, calls, underWay]
  case canWriteSync => rw [underWay_synced]; simp [written, returned, calls, underWay]
  case reportWrite => rw [underWay_wrote]; simp [written, returned, calls, underWay]
  case reportSync => rw [underWay_synced]; simp [written, returned, calls, underWay]
  all_goals simp [written, returned, calls, call?, underWay]

/-- A call of the interface is atomic to the code that makes it, and the loops are invisible to it: in every
interleaving the operations of the main thread, each call being one of them when it returns, are a run of its
code on the fields of the interface. The frames written are the commands of these calls, in order, with at
most the one under way in addition, and each call has returned the value handed over with its clear step. -/
theorem calls_atomic (code : Code Unit) (run : Process.machine.Run (new code) tape s) :
    (Interaction.machine _ _ _).Run code (performed tape) (remaining s.main) ∧
    KvaserInterface.Fields.machine.Run {} (performed tape) s.fields ∧
    written (interfaceEvents tape) = (calls (performed tape)).map Prod.fst ++ (underWay s.main).toList ∧
    returned (interfaceEvents tape) = (calls (performed tape)).map Prod.snd := by
  obtain ⟨codeRun, fieldsRun⟩ := collapsed_run run
  exact ⟨codeRun, fieldsRun, calls_eq run⟩

theorem calls_atomic_of_begun :
    ∃ s, Process.machine.Run (new (Program.main (some { interface := 0 }) fun _ => .ok [1, 2, 3, 4]))
        (begun [1, 2, 3, 4]) s ∧
      calls (performed (begun [1, 2, 3, 4])) =
        [(FileUpdater.lengthPacket Commands.FLASH_BEGIN 0 4, some AnsweredCall.pong.parsed)] ∧
      KvaserInterface.Fields.machine.Run {} (performed (begun [1, 2, 3, 4])) s.fields ∧
      returned (interfaceEvents (begun [1, 2, 3, 4])) = [some AnsweredCall.pong.parsed] := by
  obtain ⟨s, run, -⟩ := begun_run [1, 2, 3, 4] (by decide)
  obtain ⟨-, fields, -, answers⟩ := calls_atomic _ run
  exact ⟨s, run, rfl, fields, answers⟩

end Refinement

end OtaCli.Soundness.ProcessRefinement
