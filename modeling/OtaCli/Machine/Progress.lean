import OtaCli.Machine.Run

/-! # How often something can happen

A potential which the steps of interest lower, and which some steps may raise at a price, bounds how many of the
former a run can have by what there was and what was paid. Where nothing is paid this is a rank. The bound may
rest on an invariant of the states from which the run begins, and it may hold only as long as some of the events
do not happen: then it is one of the machine that refuses them.
-/

namespace LabeledMachine

variable {σ ε : Type*} {m : LabeledMachine σ ε}

/-- Within the invariant each counted step lowers the potential, but for the price of the paid ones. -/
structure Amortized (m : LabeledMachine σ ε) (I : σ → Prop) (counted paid : ε → Bool) (price : ℕ)
    (potential : σ → ℕ) : Prop where
  step : ∀ {state event next}, I state → m.step state event = some next →
    I next ∧ potential next + (counted event).toNat ≤ potential state + price * (paid event).toNat

variable {I : σ → Prop} {counted paid : ε → Bool} {price : ℕ} {potential rank : σ → ℕ} {source target : σ}
  {events : List ε}

theorem countP_concat (counted : ε → Bool) (events : List ε) (event : ε) :
    (events ++ [event]).countP counted = events.countP counted + (counted event).toNat := by
  cases seen : counted event <;> simp [List.countP_append, seen]

/-- What is left of the potential and the number of counted steps add up to no more than there was and was
paid. -/
theorem Amortized.run (amortized : Amortized m I counted paid price potential) (start : I source)
    (run : m.Run source events target) :
    I target ∧ potential target + events.countP counted ≤ potential source + price * events.countP paid := by
  refine run.invariant (I := fun tape state => I state ∧
    potential state + tape.countP counted ≤ potential source + price * tape.countP paid) ⟨start, by simp⟩ ?_
  rintro prior middle event next - ⟨holds, bound⟩ stepped
  obtain ⟨still, lower⟩ := amortized.step holds stepped
  refine ⟨still, ?_⟩
  rw [countP_concat, countP_concat, Nat.mul_add]
  omega

/-- Each counted step lowers the rank, within the invariant, and no step raises it. -/
structure Ranked (m : LabeledMachine σ ε) (I : σ → Prop) (counted : ε → Bool) (rank : σ → ℕ) : Prop where
  step : ∀ {state event next}, I state → m.step state event = some next →
    I next ∧ rank next + (counted event).toNat ≤ rank state

theorem Ranked.run (ranked : Ranked m I counted rank) (start : I source) (run : m.Run source events target) :
    I target ∧ rank target + events.countP counted ≤ rank source := by
  have amortized : Amortized m I counted counted 0 rank := by
    refine ⟨fun holds stepped => ?_⟩
    rw [Nat.zero_mul]
    exact ranked.step holds stepped
  simpa using amortized.run start run

theorem Ranked.countP_le (ranked : Ranked m I counted rank) (start : I source)
    (run : m.Run source events target) : events.countP counted ≤ rank source := by
  have := (ranked.run start run).2
  omega

/-- The machine, refusing some of its events. -/
def refusing (m : LabeledMachine σ ε) (refused : ε → Bool) : LabeledMachine σ ε :=
  ⟨fun state event => if refused event then none else m.step state event⟩

theorem refusing_step_iff {refused : ε → Bool} {event : ε} :
    (m.refusing refused).step source event = some target ↔
      refused event = false ∧ m.step source event = some target := by
  rw [← Bool.not_eq_true]
  exact Option.ite_none_left_eq_some

theorem refusing_run_iff {refused : ε → Bool} :
    (m.refusing refused).Run source events target ↔
      m.Run source events target ∧ ∀ event ∈ events, refused event = false := by
  induction events generalizing source with
  | nil => simp
  | cons event rest ih =>
    simp only [Run.cons_iff, refusing_step_iff, ih, List.forall_mem_cons]
    constructor
    · rintro ⟨middle, ⟨accepted, step⟩, run, later⟩
      exact ⟨⟨middle, step, run⟩, accepted, later⟩
    · rintro ⟨⟨middle, step, run⟩, accepted, later⟩
      exact ⟨middle, ⟨accepted, step⟩, run, later⟩

end LabeledMachine
