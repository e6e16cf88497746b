import OtaCli.Model.Lifetime
import OtaCli.Model.LifecycleTape
import OtaCli.Soundness.AnsweredCall

/-! # The reader loops over the life of the object

`Stop` closes the channel before it cancels, and waits for no loop: a loop that has passed its check reads
from the closed handle. And there is one token for the object: a loop started after a `Stop` ends at its
first check, and a second `Init` leaves two loops running. Where no step does any of this, the loops and the
channel stay in step.
-/

namespace OtaCli.Soundness.ReaderLifetime

open Model Model.Lifetime LabeledMachine

/-- The closed handles, a handle that is opened again no longer being one. -/
def trackClosed (closed : List Int32) : Move → List Int32
  | .caller ⟨.canClose handle, _⟩ => handle :: closed
  | .caller ⟨.canOpenChannel _ _, handle⟩ => closed.filter (· ≠ handle)
  | _ => closed

def closedHandles (tape : List Move) : List Int32 := tape.foldl trackClosed []

def isCallStop : Move → Bool
  | .callStop => true
  | _ => false

/-- The moves after the last call of `Stop`. -/
def sinceStop (tape : List Move) : List Move := tape.rtakeWhile fun move => !isCallStop move

/-- `Init` has returned true, and no `Stop` has begun since. -/
def InService (tape : List Move) : Prop := .returnInit true ∈ sinceStop tape

/-- The loop has not ended. -/
def isRunning : ReaderPc → Bool
  | .ended | .crashed _ => false
  | _ => true

/-- The loops that have not ended and whose token is not cancelled. -/
def live (s : State) : List ReaderPc := if s.fields.cancelled then [] else s.readers.filter isRunning

/-- No loop reads from a closed handle, and in service exactly one loop is live. -/
structure InStep (tape : List Move) (s : State) : Prop where
  reads : ∀ before i handle result, before ++ [.reader i (.canRead handle result)] <+: tape →
    handle ∉ closedHandles before
  one : InService tape → (live s).length = 1

/-- A channel was closed. -/
def Closed (tape : List Move) : Prop := ∃ handle status, .caller ⟨.canClose handle, status⟩ ∈ tape

/-- The step neither closes the channel while a loop is about to read, nor lets a loop go on to read once it
is closed, nor starts a loop beside another one or with a cancelled token. -/
def Careful (tape : List Move) (s : State) : Move → Prop
  | .caller ⟨.canClose _, _⟩ => ∀ pc ∈ s.readers, pc ≠ .read
  | .caller ⟨.startReader, _⟩ => s.readers = [] ∧ s.fields.cancelled = false
  | .reader _ (.isCancellationRequested false) => ¬ Closed tape
  | _ => True

section Tapes

variable {tape : List Move} {move : Move}

theorem closed_concat : Closed (tape ++ [move]) ↔
    Closed tape ∨ ∃ handle status, move = .caller ⟨.canClose handle, status⟩ := by
  simp only [Closed, List.mem_append, List.mem_singleton, exists_or, eq_comm]

theorem closedHandles_concat : closedHandles (tape ++ [move]) = trackClosed (closedHandles tape) move :=
  List.foldl_concat ..

private theorem closed_of_mem {handle : Int32} (member : handle ∈ closedHandles tape) : Closed tape := by
  induction tape using List.reverseRecOn with
  | nil => cases member
  | append_singleton prior move ih =>
    rw [closedHandles_concat] at member
    rw [closed_concat]
    unfold trackClosed at member
    split at member
    · exact .inr ⟨_, _, rfl⟩
    · exact .inl (ih (List.mem_filter.mp member).1)
    · exact .inl (ih member)

theorem inService_concat : InService (tape ++ [move]) ↔
    isCallStop move = false ∧ (InService tape ∨ move = .returnInit true) := by
  cases stops : isCallStop move <;> simp [InService, sinceStop, stops, eq_comm]

/-- What is read last is read from no closed handle. -/
private theorem reads_concat (before : ∀ prior i handle result,
      prior ++ [.reader i (.canRead handle result)] <+: tape → handle ∉ closedHandles prior)
    (here : ∀ i handle result, move = .reader i (.canRead handle result) → handle ∉ closedHandles tape) :
    ∀ prior i handle result, prior ++ [.reader i (.canRead handle result)] <+: tape ++ [move] →
      handle ∉ closedHandles prior := by
  intro prior i handle result within
  rcases List.prefix_concat_iff.mp within with same | earlier
  · obtain ⟨rfl, last⟩ := List.append_inj' same rfl
    exact here i handle result (List.singleton_inj.mp last).symm
  · exact before prior i handle result earlier

end Tapes

/-- What holds in every state of a careful run. -/
structure Sound (tape : List Move) (s : State) : Prop where
  reads : ∀ before i handle result, before ++ [.reader i (.canRead handle result)] <+: tape →
    handle ∉ closedHandles before
  quiet : Closed tape → ∀ pc ∈ s.readers, pc ≠ .read
  single : s.readers.length ≤ 1
  running : s.fields.cancelled = false → ∀ pc ∈ s.readers, isRunning pc = true
  service : InService tape → s.readers ≠ [] ∧ s.fields.cancelled = false
  caller : match s.caller with
    | .idle => True
    | .init rest => rest.Only KvaserInterface.IsOpening ∧
      (rest.Marks (· = .startReader) (· = false) ∨ s.readers ≠ [] ∧ s.fields.cancelled = false)
    | .stop _ => ¬ InService tape

theorem Sound.inStep {tape : List Move} {s : State} (sound : Sound tape s) : InStep tape s := by
  refine ⟨sound.reads, fun service => ?_⟩
  obtain ⟨started, uncancelled⟩ := sound.service service
  have all : s.readers.filter isRunning = s.readers :=
    List.filter_eq_self.mpr (sound.running uncancelled)
  rw [live, uncancelled, if_neg (by simp), all]
  exact Nat.le_antisymm sound.single (List.length_pos_iff.mpr started)

private theorem sound_new : Sound [] new := by
  refine ⟨?_, ?_, ?_, ?_, ?_, trivial⟩
  · simp
  · simp [new]
  · simp [new]
  · simp [new]
  · simp [InService, sinceStop]

section CallerSteps

variable {tape : List Move} {s : State} {event : Performed} {o' : KvaserInterface.Fields}

theorem cancelled_of_step {o : KvaserInterface.Fields} (acts : o.step event = some o') :
    o'.cancelled = true ↔ o.cancelled = true ∨ event.1 = .cancel := by
  rcases event with ⟨op, answer⟩
  cases op
  case cancel =>
    cases acts
    simp
  case getInterfaces =>
    obtain ⟨-, same⟩ := Option.ite_none_right_eq_some.mp acts
    cases same
    simp
  case getHandle =>
    obtain ⟨-, same⟩ := Option.ite_none_right_eq_some.mp acts
    cases same
    simp
  all_goals
    cases acts
    simp

/-- The token is cancelled exactly if `Stop` has cancelled it. -/
theorem cancelled_iff {tape : List Performed} {o : KvaserInterface.Fields}
    (run : KvaserInterface.Fields.machine.Run {} tape o) :
    o.cancelled = true ↔ .cancel ∈ operations tape := by
  refine run.invariant (I := fun tape o => o.cancelled = true ↔ .cancel ∈ operations tape)
    (by simp) ?_
  intro prior middle event next _ same acts
  rw [cancelled_of_step acts, same]
  simp [eq_comm]

theorem cancelled_of_isOpening {o : KvaserInterface.Fields} (opening : KvaserInterface.IsOpening event.1)
    (acts : o.step event = some o') : o'.cancelled = o.cancelled := by
  rw [Bool.eq_iff_iff, cancelled_of_step acts, or_iff_left opening.uncancelling]

theorem mem_startReader {readers : List ReaderPc} {op : Op} {pc : ReaderPc} :
    pc ∈ startReader readers op ↔ pc ∈ readers ∨ op = .startReader ∧ pc = .check := by
  by_cases starts : op = .startReader <;> simp [startReader, starts]

theorem startReader_ne_nil {readers : List ReaderPc} {op : Op} (begun : readers ≠ []) :
    startReader readers op ≠ [] := by
  by_cases starts : op = .startReader <;> simp [startReader, starts, begun]

theorem careful_caller_iff : Careful tape s (.caller event) ↔
    (∀ handle, event.1 = .canClose handle → ∀ pc ∈ s.readers, pc ≠ .read) ∧
      (event.1 = .startReader → s.readers = [] ∧ s.fields.cancelled = false) := by
  rcases event with ⟨op, answer⟩
  cases op
  case canClose handle =>
    exact ⟨fun careful => ⟨fun _ _ => careful, nofun⟩, fun careful => careful.1 handle rfl⟩
  case startReader => exact ⟨fun careful => ⟨nofun, fun _ => careful⟩, fun careful => careful.2 rfl⟩
  all_goals exact ⟨fun _ => ⟨nofun, nofun⟩, fun _ => trivial⟩

/-- An operation of the caller, in `Init` or in `Stop`, leaves the loops in order. -/
theorem Sound.operation (sound : Sound tape s) (careful : Careful tape s (.caller event))
    (acts : s.fields.step event = some o') :
    (Closed (tape ++ [.caller event]) → ∀ pc ∈ startReader s.readers event.1, pc ≠ .read) ∧
    (startReader s.readers event.1).length ≤ 1 ∧
    (o'.cancelled = false → ∀ pc ∈ startReader s.readers event.1, isRunning pc = true) := by
  obtain ⟨closes, starts⟩ := careful_caller_iff.mp careful
  refine ⟨fun closed pc member => ?_, ?_, fun uncancelled pc member => ?_⟩
  · rcases mem_startReader.mp member with earlier | ⟨-, rfl⟩
    · rcases closed_concat.mp closed with before | ⟨handle, status, same⟩
      · exact sound.quiet before pc earlier
      · cases same
        exact closes handle rfl pc earlier
    · nofun
  · by_cases start : event.1 = .startReader
    · simp [startReader, start, (starts start).1]
    · simpa [startReader, start] using sound.single
  · have still : s.fields.cancelled = false := by
      by_contra cancelled
      simp [(cancelled_of_step acts).mpr (.inl (by simpa using cancelled))] at uncancelled
    rcases mem_startReader.mp member with earlier | ⟨-, rfl⟩
    · exact sound.running still pc earlier
    · rfl

end CallerSteps

section ReaderSteps

variable {o : KvaserInterface.Fields} {event : ReaderEvent} {pc moved : ReaderPc}

/-- A loop goes on to `canRead` only by passing its check. -/
private theorem check_of_read (moves : readerStep o pc event = some .read) :
    event = .isCancellationRequested false := by
  rcases readerStep_cases moves with ⟨-, rfl, goes⟩ | ⟨-, result, -, goes⟩ | ⟨_, -, -, goes⟩
  · cases cancelled : o.cancelled with
    | false => rfl
    | true =>
      rw [cancelled] at goes
      cases goes
  · rw [ReviverLoop.afterRead_eq] at goes
    split at goes <;> cases goes
  · cases goes

/-- While the token is not cancelled, no loop ends. -/
private theorem isRunning_of_step (moves : readerStep o pc event = some moved) (uncancelled : o.cancelled = false) :
    isRunning moved = true := by
  rcases readerStep_cases moves with ⟨-, -, rfl⟩ | ⟨-, result, -, rfl⟩ | ⟨_, -, -, rfl⟩
  · rw [uncancelled]
    rfl
  · rw [ReviverLoop.afterRead_eq]
    split <;> rfl
  · rfl

/-- A loop that reads stands at its `canRead`. -/
private theorem read_of_canRead {handle : Int32} {result : ReadResult}
    (moves : readerStep o pc (.canRead handle result) = some moved) : pc = .read := by
  rcases readerStep_cases moves with ⟨-, other, -⟩ | ⟨here, -⟩ | ⟨_, -, other, -⟩
  · cases other
  · exact here
  · cases other

end ReaderSteps

theorem sound_of_run {chanelId baudRate : Int32} {tape : List Move} {s : State}
    (run : (machine chanelId baudRate).Run new tape s)
    (along : (machine chanelId baudRate).Along new tape Careful) : Sound tape s := by
  refine run.invariant_along (I := Sound) along sound_new ?_
  rintro prior middle move next - sound careful stepped
  cases step_eq_some_iff.mp stepped
  case callInit =>
    refine ⟨reads_concat sound.reads nofun, ?_, sound.single, sound.running, ?_, ?_⟩
    · simpa [closed_concat] using sound.quiet
    · simpa [inService_concat, isCallStop] using sound.service
    · exact ⟨KvaserInterface.init_only _ _, .inl (KvaserInterface.init_marks _ _)⟩
  case callStop =>
    refine ⟨reads_concat sound.reads nofun, ?_, sound.single, sound.running, ?_, ?_⟩
    · simpa [closed_concat] using sound.quiet
    · simp [inService_concat, isCallStop]
    · simp [inService_concat, isCallStop]
  case inInit o o' slot readers event rest rest' moves acts =>
    obtain ⟨quiet, single, running⟩ := sound.operation careful acts
    obtain ⟨only, marks⟩ := sound.caller
    obtain ⟨opening, only'⟩ := only.step moves
    have same : o'.cancelled = o.cancelled := cancelled_of_isOpening opening acts
    have kept (begun : readers ≠ [] ∧ o.cancelled = false) :
        startReader readers event.1 ≠ [] ∧ o'.cancelled = false :=
      ⟨startReader_ne_nil begun.1, same.trans begun.2⟩
    refine ⟨reads_concat sound.reads nofun, quiet, single, running, ?_, only', ?_⟩
    · rintro service
      obtain ⟨-, earlier | returned⟩ := inService_concat.mp service
      · exact kept (sound.service earlier)
      · cases returned
    · rcases marks with later | begun
      · rcases later.step moves with starts | later
        · obtain ⟨-, uncancelled⟩ := (careful_caller_iff.mp careful).2 starts
          exact .inr ⟨by simp [startReader, starts], same.trans uncancelled⟩
        · exact .inl later
      · exact .inr (kept begun)
  case inStop moves acts =>
    obtain ⟨quiet, single, running⟩ := sound.operation careful acts
    have outside : ¬ InService prior := sound.caller
    refine ⟨reads_concat sound.reads nofun, quiet, single, running, ?_, ?_⟩
    · simp [inService_concat, outside]
    · simp [inService_concat, outside]
  case returnInit value =>
    obtain ⟨-, marks⟩ := sound.caller
    refine ⟨reads_concat sound.reads nofun, ?_, sound.single, sound.running, ?_, trivial⟩
    · simpa [closed_concat] using sound.quiet
    · rintro service
      obtain ⟨-, earlier | returned⟩ := inService_concat.mp service
      · exact sound.service earlier
      · cases returned
        exact marks.resolve_left nofun
  case returnStop =>
    have outside : ¬ InService prior := sound.caller
    refine ⟨reads_concat sound.reads nofun, ?_, sound.single, sound.running, ?_, trivial⟩
    · simpa [closed_concat] using sound.quiet
    · simp [inService_concat, outside]
  case reader caller o slot readers i event pc moved stands moves =>
    have member : pc ∈ readers := List.mem_of_getElem? stands
    have closed_iff : Closed (prior ++ [.reader i event]) ↔ Closed prior := by simp [closed_concat]
    refine ⟨reads_concat sound.reads ?_, ?_, ?_, ?_, ?_, ?_⟩
    · rintro j handle result same closed
      cases same
      exact sound.quiet (closed_of_mem closed) pc member (read_of_canRead moves)
    · intro closed other inside
      rw [closed_iff] at closed
      rcases List.mem_or_eq_of_mem_set inside with earlier | rfl
      · exact sound.quiet closed other earlier
      · rintro rfl
        obtain rfl := check_of_read moves
        exact careful closed
    · simpa using sound.single
    · intro uncancelled other inside
      rcases List.mem_or_eq_of_mem_set inside with earlier | rfl
      · exact sound.running uncancelled other earlier
      · exact isRunning_of_step moves uncancelled
    · simpa [inService_concat, isCallStop] using sound.service
    · have still := sound.caller
      simpa [inService_concat, isCallStop] using still

theorem handle_of_isStopping {o o' : KvaserInterface.Fields} {event : Performed}
    (stopping : KvaserInterface.IsStopping event.1) (acts : o.step event = some o') : o'.handle = o.handle := by
  rcases event with ⟨op, answer⟩
  cases op <;> first | exact stopping.elim | skip
  case getHandle =>
    obtain ⟨-, same⟩ := Option.ite_none_right_eq_some.mp acts
    cases same
    rfl
  all_goals
    cases acts
    rfl

private theorem mem_trackClosed_of_isStopping {closed : List Int32} {handle : Int32} {event : Performed}
    (stopping : KvaserInterface.IsStopping event.1) (member : handle ∈ closed) :
    handle ∈ trackClosed closed (.caller event) := by
  rcases event with ⟨op, answer⟩
  cases op <;> first | exact stopping.elim | exact member | exact List.mem_cons_of_mem _ member

/-- Where the caller stands in every run, careful or not: once a channel was closed, the token is cancelled,
or the caller is in `Stop` and the closed handle is still the one in the field. -/
def Tracked (tape : List Move) (s : State) : Prop :=
  match s.caller with
  | .idle => Closed tape → s.fields.cancelled = true
  | .init rest => rest.Only KvaserInterface.IsOpening ∧ rest.Finishes (· = .startReader) true ∧
    (Closed tape → s.fields.cancelled = true)
  | .stop rest => rest.Only KvaserInterface.IsStopping ∧ KvaserInterface.ClosesHandle rest s.fields ∧
    (s.fields.cancelled = true ∨ rest.Marks (· = .cancel) fun _ => False) ∧
    (Closed tape → s.fields.cancelled = true ∨ s.fields.handle ∈ closedHandles tape)

private theorem tracked_of_run {chanelId baudRate : Int32} {tape : List Move} {s : State}
    (run : (machine chanelId baudRate).Run new tape s) : Tracked tape s := by
  refine run.invariant (I := Tracked) (by simp [Tracked, new, Closed]) ?_
  rintro prior middle move next - tracked stepped
  cases step_eq_some_iff.mp stepped
  case callInit =>
    have closed : Closed prior → _ := tracked
    refine ⟨KvaserInterface.init_only _ _, KvaserInterface.init_finishes _ _, ?_⟩
    simpa [closed_concat] using closed
  case callStop =>
    have closed : Closed prior → _ := tracked
    refine ⟨KvaserInterface.stop_stopping, KvaserInterface.stop_closesHandle _, .inr KvaserInterface.stop_marks, ?_⟩
    intro before
    exact .inl (closed (by simpa [closed_concat] using before))
  case inInit o o' slot readers event rest rest' moves acts =>
    obtain ⟨only, finishes, closed⟩ := tracked
    obtain ⟨opening, only'⟩ := only.step moves
    refine ⟨only', (finishes.step moves).2, fun before => (cancelled_of_step acts).mpr (.inl (closed ?_))⟩
    rcases closed_concat.mp before with earlier | ⟨handle, status, same⟩
    · exact earlier
    · cases same
      exact opening.elim
  case inStop o o' slot readers event rest rest' moves acts =>
    obtain ⟨only, closes, cancels, closed⟩ := tracked
    obtain ⟨stopping, only'⟩ := only.step moves
    obtain ⟨closesHandle, closes'⟩ := closes.step moves acts
    refine ⟨only', closes', ?_, fun before => ?_⟩
    · rcases cancels with cancelled | marks
      · exact .inl ((cancelled_of_step acts).mpr (.inl cancelled))
      · exact (marks.step moves).imp_left fun here => (cancelled_of_step acts).mpr (.inr here)
    · rw [closedHandles_concat, handle_of_isStopping stopping acts]
      rcases closed_concat.mp before with earlier | ⟨handle, status, same⟩
      · apply (closed earlier).imp
        · exact fun cancelled => (cancelled_of_step acts).mpr (.inl cancelled)
        · exact mem_trackClosed_of_isStopping stopping
      · cases same
        rw [closesHandle handle rfl]
        exact .inr (List.mem_cons_self ..)
  case returnInit value =>
    obtain ⟨-, -, closed⟩ := tracked
    intro before
    exact closed (by simpa [closed_concat] using before)
  case returnStop =>
    obtain ⟨-, -, cancels, -⟩ := tracked
    exact fun _ => cancels.resolve_right id
  case reader caller o slot readers i event pc moved stands moves =>
    have closed_iff : Closed (prior ++ [.reader i event]) ↔ Closed prior := by simp [closed_concat]
    have same : closedHandles (prior ++ [.reader i event]) = closedHandles prior := closedHandles_concat
    cases caller <;> simpa only [Tracked, closed_iff, same] using tracked

section Careless

variable {chanelId baudRate : Int32} {tape : List Move} {s : State} {o o' : KvaserInterface.Fields}
  {slot : Option ResponsePacket} {readers : List ReaderPc} {event : Performed}

/-- A loop that is about to read from a closed handle can do so. -/
theorem broken_of_read {i : ℕ} (stands : s.readers[i]? = some .read)
    (closed : s.fields.handle ∈ closedHandles tape) :
    ∃ more t, (machine chanelId baudRate).Run s more t ∧ ¬ InStep (tape ++ more) t := by
  have reads : Step chanelId baudRate s (.reader i (.canRead s.fields.handle AnsweredCall.pong)) _ :=
    .reader stands (if_pos rfl)
  refine ⟨[_], _, reads.cons (.refl _), fun inStep => ?_⟩
  exact inStep.reads tape i s.fields.handle _ List.prefix_rfl closed

/-- An `Init` that has started one loop too many can return true. -/
private theorem broken_of_start (many : (live ⟨.init (.ret true), o, slot, readers⟩).length ≠ 1) :
    ∃ more t, (machine chanelId baudRate).Run ⟨.init (.ret true), o, slot, readers⟩ more t ∧
      ¬ InStep (tape ++ more) t := by
  have returns : Step chanelId baudRate ⟨.init (.ret true), o, slot, readers⟩ (.returnInit true) _ :=
    .returnInit
  refine ⟨[_], _, returns.cons (.refl _), fun inStep => ?_⟩
  exact many (inStep.one (inService_concat.mpr ⟨rfl, .inr rfl⟩))

/-- A loop that is the only one live when it has been started is the first one. -/
private theorem first_of_live {caller : Caller}
    (running : o.cancelled = false → ∀ pc ∈ readers, isRunning pc = true)
    (one : (live ⟨caller, o, slot, readers ++ [.check]⟩).length = 1) :
    readers = [] ∧ o.cancelled = false := by
  rw [live] at one
  split at one
  case isTrue cancelled => cases one
  case isFalse uncancelled =>
    have uncancelled : o.cancelled = false := by simpa using uncancelled
    have all : (readers ++ [ReaderPc.check]).filter isRunning = readers ++ [ReaderPc.check] := by
      rw [List.filter_append, List.filter_eq_self.mpr (running uncancelled)]
      rfl
    rw [all] at one
    exact ⟨by simpa using one, uncancelled⟩

/-- `Init` can only be careless in starting a loop, and then it can return. -/
private theorem broken_of_careless_init {rest rest' : Code Bool}
    (sound : Sound tape ⟨.init rest, o, slot, readers⟩) (tracked : Tracked tape ⟨.init rest, o, slot, readers⟩)
    (moves : (Interaction.machine _ _ _).step rest event = some rest') (acts : o.step event = some o')
    (careless : ¬ Careful tape ⟨.init rest, o, slot, readers⟩ (.caller event)) :
    ∃ more u, (machine chanelId baudRate).Run ⟨.init rest', o', slot, startReader readers event.1⟩ more u ∧
      ¬ InStep (tape ++ [.caller event] ++ more) u := by
  obtain ⟨only, finishes, -⟩ := tracked
  obtain ⟨opening, -⟩ := only.step moves
  have closes (handle : Int32) : event.1 ≠ .canClose handle := fun close => by
    rw [close] at opening
    exact opening
  have starts : event.1 = .startReader := by
    by_contra other
    exact careless (careful_caller_iff.mpr
      ⟨fun handle close => absurd close (closes handle), fun start => absurd start other⟩)
  have same : o'.cancelled = o.cancelled := cancelled_of_isOpening opening acts
  obtain rfl := (finishes.step moves).1 starts
  apply broken_of_start
  intro one
  rw [startReader, if_pos starts] at one
  obtain ⟨first, uncancelled⟩ := first_of_live (by rw [same]; exact sound.running) one
  exact careless (careful_caller_iff.mpr
    ⟨fun handle close => absurd close (closes handle), fun _ => ⟨first, same.symm.trans uncancelled⟩⟩)

/-- `Stop` can only be careless in closing the channel, and then a loop can read. -/
private theorem broken_of_careless_stop {rest rest' : Code Unit}
    (tracked : Tracked tape ⟨.stop rest, o, slot, readers⟩)
    (moves : (Interaction.machine _ _ _).step rest event = some rest') (acts : o.step event = some o')
    (careless : ¬ Careful tape ⟨.stop rest, o, slot, readers⟩ (.caller event)) :
    ∃ more u, (machine chanelId baudRate).Run ⟨.stop rest', o', slot, startReader readers event.1⟩ more u ∧
      ¬ InStep (tape ++ [.caller event] ++ more) u := by
  obtain ⟨only, closes, -, -⟩ := tracked
  obtain ⟨stopping, -⟩ := only.step moves
  have starts : event.1 ≠ .startReader := fun start => by
    rw [start] at stopping
    exact stopping
  have reading : ∃ handle, event.1 = .canClose handle ∧ ReaderPc.read ∈ readers := by
    by_contra none
    refine careless (careful_caller_iff.mpr ⟨fun handle same pc member => ?_, fun start => absurd start starts⟩)
    rintro rfl
    exact none ⟨handle, same, member⟩
  obtain ⟨handle, same, member⟩ := reading
  obtain ⟨i, stands⟩ := List.mem_iff_getElem?.mp member
  have closed : o'.handle ∈ closedHandles (tape ++ [.caller event]) := by
    rw [closedHandles_concat, handle_of_isStopping stopping acts, ← (closes.step moves acts).1 handle same]
    rcases event with ⟨op, answer⟩
    cases same
    exact List.mem_cons_self ..
  have still : (startReader readers event.1)[i]? = some .read := by
    simpa [startReader, starts] using stands
  exact broken_of_read still closed

/-- A loop can only be careless in passing its check once the channel is closed, and then it can read. -/
private theorem broken_of_careless_reader {caller : Caller} {i : ℕ} {pc moved : ReaderPc} {event : ReaderEvent}
    (tracked : Tracked tape ⟨caller, o, slot, readers⟩) (stands : readers[i]? = some pc)
    (moves : readerStep o pc event = some moved)
    (careless : ¬ Careful tape ⟨caller, o, slot, readers⟩ (.reader i event)) :
    ∃ more u, (machine chanelId baudRate).Run
        ⟨caller, o, storeResponse slot event, readers.set i moved⟩ more u ∧
      ¬ InStep (tape ++ [.reader i event] ++ more) u := by
  obtain ⟨rfl, closed⟩ : event = .isCancellationRequested false ∧ Closed tape := by
    match event, careless with
    | .isCancellationRequested true, careless => exact (careless trivial).elim
    | .isCancellationRequested false, careless => exact ⟨rfl, not_not.mp careless⟩
    | .canRead _ _, careless => exact (careless trivial).elim
    | .store _, careless => exact (careless trivial).elim
  obtain ⟨uncancelled, rfl⟩ : o.cancelled = false ∧ moved = .read := by
    rcases readerStep_cases moves with ⟨-, same, goes⟩ | ⟨-, _, same, -⟩ | ⟨_, -, same, -⟩
    · have uncancelled : false = o.cancelled := by simpa using same
      rw [← uncancelled] at goes
      exact ⟨uncancelled.symm, goes⟩
    · cases same
    · cases same
  have still : o.handle ∈ closedHandles (tape ++ [.reader i (.isCancellationRequested false)]) := by
    rw [closedHandles_concat]
    -- only within `Stop` can the channel be closed and the token not be cancelled
    cases caller with
    | idle => cases uncancelled.symm.trans (tracked closed)
    | init rest => cases uncancelled.symm.trans (tracked.2.2 closed)
    | stop rest => exact (tracked.2.2.2 closed).resolve_left (by simp [uncancelled])
  have inside : i < readers.length := (List.getElem?_eq_some_iff.mp stands).1
  exact broken_of_read (List.getElem?_set_self inside) still

/-- After a step that is not careful, the loops and the channel can fall out of step. -/
private theorem broken_of_careless {t : State} {move : Move} (run : (machine chanelId baudRate).Run new tape s)
    (along : (machine chanelId baudRate).Along new tape Careful)
    (stepped : (machine chanelId baudRate).step s move = some t) (careless : ¬ Careful tape s move) :
    ∃ more u, (machine chanelId baudRate).Run t more u ∧ ¬ InStep (tape ++ [move] ++ more) u := by
  have sound := sound_of_run run along
  have tracked := tracked_of_run run
  cases step_eq_some_iff.mp stepped
  case callInit => exact (careless trivial).elim
  case callStop => exact (careless trivial).elim
  case returnInit => exact (careless trivial).elim
  case returnStop => exact (careless trivial).elim
  case inInit moves acts => exact broken_of_careless_init sound tracked moves acts careless
  case inStop moves acts => exact broken_of_careless_stop tracked moves acts careless
  case reader stands moves => exact broken_of_careless_reader tracked stands moves careless

end Careless

/-- Where every step is careful, the loops and the channel stay in step; and no step that is not careful
can be added, for others can follow it after which they are not. -/
theorem inStep_of_careful (chanelId baudRate : Int32) {tape : List Move} {s : State}
    (run : (machine chanelId baudRate).Run new tape s)
    (along : (machine chanelId baudRate).Along new tape Careful) :
    InStep tape s ∧ ∀ move t, (machine chanelId baudRate).step s move = some t → ¬ Careful tape s move →
      ∃ more u, (machine chanelId baudRate).Run t more u ∧ ¬ InStep (tape ++ [move] ++ more) u :=
  ⟨(sound_of_run run along).inStep, fun _ _ stepped careless => broken_of_careless run along stepped careless⟩

section OneChannel

open Model.KvaserInterface (oneChannel stopping Opening)

/-- A first `Init`, up to the start of the loop. -/
def opening : List Move :=
  .callInit :: (oneChannel ++
    ((⟨0, canOK, canOK, ("", "", "")⟩ : Opening).performed 0 (-2)).dropLast).map .caller

theorem opening_run : (machine 0 (-2)).Run new opening
    ⟨.init (.perform .startReader fun _ => .ret true), ⟨[(0, "Leaf")], 0, false⟩, none, []⟩ := by
  rfl

/-- And its return. -/
def initializing : List Move := opening ++ [.caller ⟨.startReader, ()⟩, .returnInit true]

theorem initializing_run : (machine 0 (-2)).Run new initializing
    ⟨.idle, ⟨[(0, "Leaf")], 0, false⟩, none, [.check]⟩ :=
  opening_run.append rfl

private theorem initializing_careful : (machine 0 (-2)).Along new initializing Careful := by
  have free : ∀ move ∈ opening, ∀ prior state, Careful prior state move := by
    simp [opening, oneChannel, Opening.performed, KvaserInterface.report, canOK, Careful]
  have started : (machine 0 (-2)).Along new (opening ++ [.caller ⟨.startReader, ()⟩]) Careful :=
    (Along.concat_iff opening_run).mpr ⟨Along.nil.append free, rfl, rfl⟩
  have returned : ∀ move ∈ [.returnInit true], ∀ prior state, Careful prior state move := by
    simp [Careful]
  simpa [initializing] using started.append returned

/-- One round of the loop. -/
def round : List Move :=
  [.reader 0 (.isCancellationRequested false), .reader 0 (.canRead 0 AnsweredCall.pong),
    .reader 0 (.store AnsweredCall.pong.parsed)]

private theorem round_run {o : KvaserInterface.Fields} {slot : Option ResponsePacket} (first : o.handle = 0)
    (uncancelled : o.cancelled = false) :
    (machine 0 (-2)).Run ⟨.idle, o, slot, [.check]⟩ round
      ⟨.idle, o, some AnsweredCall.pong.parsed, [.check]⟩ := by
  have checks : readerStep o .check (.isCancellationRequested false) = some .read :=
    if_pos uncancelled.symm
  have reads : readerStep o .read (.canRead 0 AnsweredCall.pong) = some (.store AnsweredCall.pong.parsed) := by
    rw [readerStep, if_pos first.symm, AnsweredCall.afterRead_of_isResponse AnsweredCall.pong_isResponse]
  have stores : readerStep o (.store AnsweredCall.pong.parsed) (.store AnsweredCall.pong.parsed) = some .check := by
    rw [readerStep, if_pos rfl]
  exact (Step.reader rfl checks).cons <| (Step.reader rfl reads).cons <| (Step.reader rfl stores).cons <|
    .refl _

/-- `Stop` before it closes the channel. -/
def leaving : List Move := .callStop :: ((stopping 0).take 3).map .caller

/-- Its end, after which the loop ends too. -/
def ending : List Move := [.caller ⟨.cancel, ()⟩, .returnStop, .reader 0 (.isCancellationRequested true)]

private theorem leaving_run : (machine 0 (-2)).Run new (initializing ++ (round ++ leaving))
    ⟨.stop (.perform (.canClose 0) fun status => KvaserInterface.checkForError status "canClose" >>= fun _ =>
      .perform .cancel .ret), ⟨[(0, "Leaf")], 0, false⟩, some AnsweredCall.pong.parsed, [.check]⟩ :=
  initializing_run.append ((round_run rfl rfl).append rfl)

private theorem leaving_careful : (machine 0 (-2)).Along new (initializing ++ (round ++ leaving)) Careful := by
  have unclosed : ¬ Closed initializing := by
    simp [Closed, initializing, opening, oneChannel, Opening.performed, KvaserInterface.report, canOK]
  have checked : (machine 0 (-2)).Along new (initializing ++ [.reader 0 (.isCancellationRequested false)])
      Careful := (Along.concat_iff initializing_run).mpr ⟨initializing_careful, unclosed⟩
  have free : ∀ move ∈ round.tail ++ leaving, ∀ prior state, Careful prior state move := by
    simp [round, leaving, stopping, Careful]
  simpa [round] using checked.append free

/-- A life in which the loop is at its check while the channel is closed. -/
theorem inStep_of_whole_life :
    InStep (initializing ++ (round ++ leaving) ++ [.caller ⟨.canClose 0, canOK⟩] ++ ending)
      ⟨.idle, ⟨[(0, "Leaf")], 0, true⟩, some AnsweredCall.pong.parsed, [.ended]⟩ := by
  have run := (leaving_run.append (show (machine 0 (-2)).Run _ [.caller ⟨.canClose 0, canOK⟩] _ from rfl)).append
    (show (machine 0 (-2)).Run _ ending ⟨.idle, ⟨[(0, "Leaf")], 0, true⟩, _, [.ended]⟩ from rfl)
  have closed : (machine 0 (-2)).Along new
      (initializing ++ (round ++ leaving) ++ [.caller ⟨.canClose 0, canOK⟩]) Careful :=
    (Along.concat_iff leaving_run).mpr ⟨leaving_careful, by simp [Careful]⟩
  have free : ∀ move ∈ ending, ∀ prior state, Careful prior state move := by
    simp [ending, Careful]
  exact (inStep_of_careful 0 (-2) run (closed.append free)).1

/-- A loop that has passed its check when `Stop` begins reads from the closed handle. -/
theorem read_after_close :
    ∃ s, (machine 0 (-2)).Run new (initializing ++ (.reader 0 (.isCancellationRequested false) :: leaving ++
        [.caller ⟨.canClose 0, canOK⟩, .reader 0 (.canRead 0 AnsweredCall.pong)])) s ∧
      ¬ InStep (initializing ++ (.reader 0 (.isCancellationRequested false) :: leaving ++
        [.caller ⟨.canClose 0, canOK⟩, .reader 0 (.canRead 0 AnsweredCall.pong)])) s := by
  refine ⟨_, initializing_run.append rfl, fun inStep => ?_⟩
  have closed : 0 ∈ closedHandles (initializing ++
      (.reader 0 (.isCancellationRequested false) :: leaving ++ [.caller ⟨.canClose 0, canOK⟩])) := by
    decide
  exact inStep.reads _ 0 0 AnsweredCall.pong ⟨[], by simp⟩ closed

end OneChannel

end OtaCli.Soundness.ReaderLifetime
