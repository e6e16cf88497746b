import OtaCli.Machine.Progress
import OtaCli.Soundness.ReaderLifetime

/-! # How the reader loops come to their end

`Stop` waits for no loop. What it can count on is how little a loop does once the token is cancelled, whatever
it reads and however often the object is initialized again: it comes to its check in at most two steps, and
ends there.
-/

namespace OtaCli.Soundness.Shutdown

open Model Model.Lifetime LabeledMachine

variable {chanelId baudRate : Int32} {s t : State} {moves : List Move}

/-- The steps of loop `i` which are of some kind. -/
def isOf (i : ℕ) (kind : ReaderEvent → Bool) : Move → Bool
  | .reader j event => j == i && kind event
  | _ => false

def isRead : ReaderEvent → Bool
  | .canRead _ _ => true
  | _ => false

def isStore : ReaderEvent → Bool
  | .store _ => true
  | _ => false

/-- The steps that a loop has left, where its token is cancelled. A loop that is yet to be started has its
check before it. -/
def stepsLeft : Option ReaderPc → ℕ
  | none | some .check => 1
  | some .read => 3
  | some (.store _) => 2
  | some .ended | some (.crashed _) => 0

def readsLeft : Option ReaderPc → ℕ
  | some .read => 1
  | _ => 0

def storesLeft : Option ReaderPc → ℕ
  | some .read | some (.store _) => 1
  | _ => 0

/-- What is left of a kind of steps, as the loop's own steps use it up. -/
structure Budget (kind : ReaderEvent → Bool) (left : Option ReaderPc → ℕ) : Prop where
  start : left (some .check) ≤ left none
  step : ∀ {o pc event moved}, o.cancelled = true → readerStep o pc event = some moved →
    left (some moved) + (kind event).toNat ≤ left (some pc)

/-- A check ends the loop, a read leads to its check or to a store, and a store to its check. -/
theorem budget_of_events {kind : ReaderEvent → Bool} {left : Option ReaderPc → ℕ}
    (start : left (some .check) ≤ left none)
    (check : ∀ seen, left (some .ended) + (kind (.isCancellationRequested seen)).toNat ≤ left (some .check))
    (passed : ∀ handle result, left (some .check) + (kind (.canRead handle result)).toNat ≤ left (some .read))
    (taken : ∀ handle result packet,
      left (some (.store packet)) + (kind (.canRead handle result)).toNat ≤ left (some .read))
    (store : ∀ packet, left (some .check) + (kind (.store packet)).toNat ≤ left (some (.store packet))) :
    Budget kind left where
  start := start
  step cancelled stepped := by
    obtain ⟨rfl, rfl, rfl⟩ | ⟨rfl, result, rfl, rfl⟩ | ⟨packet, rfl, rfl, rfl⟩ := readerStep_cases stepped
    · rw [cancelled]
      exact check true
    · rw [ReviverLoop.afterRead_eq]
      split
      · exact taken _ _ _
      · exact passed _ _
    · exact store packet

private theorem budget_steps : Budget (fun _ => true) stepsLeft := by
  apply budget_of_events <;> simp [stepsLeft]

private theorem budget_reads : Budget isRead readsLeft := by
  apply budget_of_events <;> simp [readsLeft, isRead]

private theorem budget_stores : Budget isStore storesLeft := by
  apply budget_of_events <;> simp [storesLeft, isStore]

section Runs

variable {kind : ReaderEvent → Bool} {left : Option ReaderPc → ℕ}

private theorem left_startReader (budget : Budget kind left) (readers : List ReaderPc) (op : Op) (i : ℕ) :
    left (startReader readers op)[i]? ≤ left readers[i]? := by
  by_cases starts : op = .startReader
  · rw [startReader, if_pos starts]
    rcases Nat.lt_trichotomy i readers.length with inside | rfl | beyond
    · rw [List.getElem?_append_left inside]
    · simpa using budget.start
    · rw [List.getElem?_eq_none (by simpa using Nat.succ_le_of_lt beyond), List.getElem?_eq_none beyond.le]
  · rw [startReader, if_neg starts]

/-- Once the token is cancelled, each loop uses up what it has left. -/
private theorem ranked (budget : Budget kind left) (i : ℕ) :
    Ranked (machine chanelId baudRate) (fun s => s.fields.cancelled = true) (isOf i kind)
      (fun s => left s.readers[i]?) := by
  constructor
  intro state move next cancelled stepped
  have still {o o' : KvaserInterface.Fields} {event : Performed} (before : o.cancelled = true)
      (acts : o.step event = some o') : o'.cancelled = true :=
    (ReaderLifetime.cancelled_of_step acts).mpr (.inl before)
  cases step_eq_some_iff.mp stepped
  case inInit inner acts => exact ⟨still cancelled acts, left_startReader budget _ _ i⟩
  case inStop inner acts => exact ⟨still cancelled acts, left_startReader budget _ _ i⟩
  case reader caller o slot readers j event pc moved stands inner =>
    refine ⟨cancelled, ?_⟩
    by_cases same : j = i
    · subst same
      have inside := (List.getElem?_eq_some_iff.mp stands).1
      simp only [List.getElem?_set_self inside, stands]
      simpa [isOf] using budget.step cancelled inner
    · simp [isOf, beq_eq_false_iff_ne.mpr same, List.getElem?_set_ne same]
  all_goals exact ⟨cancelled, Nat.le_refl _⟩

end Runs

/-- A loop that has not ended can go on. -/
private theorem exists_readerStep (o : KvaserInterface.Fields) {pc : ReaderPc}
    (running : ReaderLifetime.isRunning pc = true) : ∃ event moved, readerStep o pc event = some moved := by
  cases pc with
  | check => exact ⟨.isCancellationRequested o.cancelled, _, if_pos rfl⟩
  | read => exact ⟨.canRead o.handle AnsweredCall.pong, _, if_pos rfl⟩
  | store packet => exact ⟨.store packet, _, if_pos rfl⟩
  | ended => cases running
  | crashed e => cases running

/-- The loops come to their end. From every state in which the token is cancelled, whatever the caller does
from then on and whatever the loops read, each loop takes at most three more steps, and none of them keeps it
from going on before it has ended. It reads at most once, and only if it stood before its read, so that a loop
which a later `Init` starts does not read at all; and it stores at most one response. -/
theorem shutdown_bounded (cancelled : s.fields.cancelled = true) (run : (machine chanelId baudRate).Run s moves t)
    (i : ℕ) :
    moves.countP (isOf i fun _ => true) ≤ 3 ∧
    (∀ pc, t.readers[i]? = some pc → ReaderLifetime.isRunning pc = true →
      ∃ event next, (machine chanelId baudRate).step t (.reader i event) = some next) ∧
    moves.countP (isOf i isRead) ≤ readsLeft s.readers[i]? ∧
    moves.countP (isOf i isStore) ≤ 1 := by
  have few (pc : Option ReaderPc) : stepsLeft pc ≤ 3 ∧ storesLeft pc ≤ 1 := by
    rcases pc with _ | _ | _ | _ | _ | _ <;> simp [stepsLeft, storesLeft]
  refine ⟨?_, fun pc stands running => ?_, (ranked budget_reads i).countP_le cancelled run, ?_⟩
  · exact ((ranked budget_steps i).countP_le cancelled run).trans (few _).1
  · obtain ⟨event, moved, moves⟩ := exists_readerStep t.fields running
    exact ⟨event, _, step_eq_some_iff.mpr (.reader stands moves)⟩
  · exact ((ranked budget_stores i).countP_le cancelled run).trans (few _).2

/-- A loop that stood before its read when the token was cancelled stores what it reads, and ends. -/
theorem shutdown_bounded_of_read :
    ∃ t, (machine 0 (-2)).Run ⟨.idle, ⟨[(0, "Leaf")], 0, true⟩, none, [.read]⟩
        [.reader 0 (.canRead 0 AnsweredCall.pong), .reader 0 (.store AnsweredCall.pong.parsed),
          .reader 0 (.isCancellationRequested true)] t ∧
      [Move.reader 0 (.canRead 0 AnsweredCall.pong), .reader 0 (.store AnsweredCall.pong.parsed),
        .reader 0 (.isCancellationRequested true)].countP (isOf 0 fun _ => true) ≤ 3 := by
  have reads : readerStep ⟨[(0, "Leaf")], 0, true⟩ .read (.canRead 0 AnsweredCall.pong) =
      some (.store AnsweredCall.pong.parsed) := by
    rw [readerStep, if_pos rfl, AnsweredCall.afterRead_of_isResponse AnsweredCall.pong_isResponse]
  have stores : readerStep ⟨[(0, "Leaf")], 0, true⟩ (.store AnsweredCall.pong.parsed)
      (.store AnsweredCall.pong.parsed) = some .check := by
    rw [readerStep, if_pos rfl]
  have run : (machine 0 (-2)).Run ⟨.idle, ⟨[(0, "Leaf")], 0, true⟩, none, [.read]⟩
      [.reader 0 (.canRead 0 AnsweredCall.pong), .reader 0 (.store AnsweredCall.pong.parsed),
        .reader 0 (.isCancellationRequested true)]
      ⟨.idle, ⟨[(0, "Leaf")], 0, true⟩, some AnsweredCall.pong.parsed, [.ended]⟩ :=
    (Step.reader rfl reads).cons <| (Step.reader rfl stores).cons <| (Step.reader rfl rfl).cons <| .refl _
  exact ⟨_, run, (shutdown_bounded rfl run 0).1⟩

end OtaCli.Soundness.Shutdown
