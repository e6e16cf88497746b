import OtaCli.Machine.Run
import Mathlib.Order.Lattice

/-! # What comes in the end

An execution tells, moment by moment and without end, which step is taken and where it leads; there are moments at
which none is, so that a run that is over is an execution too. What must come of it can only be said of executions
in which nobody is passed over for ever: steps of a `Fair` kind are taken again and again, until there are none to
take. `LeadsTo` is the order in which things then come, and `Fair.leadsTo` its rule for one fair kind of steps.
-/

namespace LabeledMachine

variable {σ ε : Type*} {m : LabeledMachine σ ε} {source : σ}

/-- The state at each moment, and the event, if there is one, that leads to the next. -/
structure Execution (m : LabeledMachine σ ε) (source : σ) where
  state : ℕ → σ
  event : ℕ → Option ε
  start : state 0 = source
  moves : ∀ n, m.Run (state n) (event n).toList (state (n + 1))

namespace Execution

variable (x : m.Execution source) {n k : ℕ} {P Q R : σ → Prop} {kind : ε → Bool} {done : σ → Prop}
  {event : ε}

/-- What has happened up to a moment. -/
def tape : ℕ → List ε
  | 0 => []
  | n + 1 => tape n ++ (x.event n).toList

theorem run (n : ℕ) : m.Run source (x.tape n) (x.state n) := by
  induction n with
  | zero => exact Run.nil_iff.mpr x.start
  | succ n ih => exact ih.append (x.moves n)

theorem step (taken : x.event n = some event) : m.step (x.state n) event = some (x.state (n + 1)) := by
  have moves := x.moves n
  rw [taken] at moves
  exact Run.singleton_iff.mp moves

theorem still (rests : x.event n = none) : x.state (n + 1) = x.state n := by
  have moves := x.moves n
  rw [rests] at moves
  exact Run.nil_iff.mp moves

theorem tape_prefix (later : n ≤ k) : x.tape n <+: x.tape k := by
  induction k, later using Nat.le_induction with
  | base => exact List.prefix_rfl
  | succ k later ih => exact ih.trans (List.prefix_append _ _)

/-- What every step keeps, or gives up for something else, is kept until that has come. -/
theorem stays (keeps : ∀ {k event}, n ≤ k → P (x.state k) → x.event k = some event →
      P (x.state (k + 1)) ∨ Q (x.state (k + 1)))
    (holds : P (x.state n)) (later : n ≤ k) : P (x.state k) ∨ ∃ j, n ≤ j ∧ j ≤ k ∧ Q (x.state j) := by
  induction k, later using Nat.le_induction with
  | base => exact .inl holds
  | succ k later ih =>
    obtain now | ⟨j, after, before, come⟩ := ih
    · cases taken : x.event k with
      | none => exact .inl (x.still taken ▸ now)
      | some event =>
        exact (keeps later now taken).imp id fun come => ⟨k + 1, Nat.le_succ_of_le later, Nat.le_refl _, come⟩
    · exact .inr ⟨j, after, Nat.le_succ_of_le before, come⟩

theorem persists (keeps : ∀ {k event}, n ≤ k → P (x.state k) → x.event k = some event → P (x.state (k + 1)))
    (holds : P (x.state n)) (later : n ≤ k) : P (x.state k) := by
  obtain now | ⟨_, _, _, no⟩ :=
    x.stays (P := P) (Q := fun _ => False) (fun later now taken => .inl (keeps later now taken)) holds later
  · exact now
  · exact no.elim

/-- Where `P` holds, `Q` does then or later. -/
def LeadsTo (P Q : σ → Prop) : Prop := ∀ n, P (x.state n) → ∃ k, n ≤ k ∧ Q (x.state k)

/-- Steps of the kind are taken again and again, unless a state has come in which there are none to take. -/
def Fair (kind : ε → Bool) (done : σ → Prop) : Prop :=
  ∀ n, ∃ k, n ≤ k ∧ (done (x.state k) ∨ ∃ event, x.event k = some event ∧ kind event = true)

variable {x}

theorem LeadsTo.of_imp (implies : ∀ s, P s → Q s) : x.LeadsTo P Q := fun n holds => ⟨n, le_rfl, implies _ holds⟩

theorem LeadsTo.trans (first : x.LeadsTo P Q) (second : x.LeadsTo Q R) : x.LeadsTo P R := by
  intro n holds
  obtain ⟨k, later, come⟩ := first n holds
  obtain ⟨j, last, reached⟩ := second k come
  exact ⟨j, later.trans last, reached⟩

/-- What is left open where it leads may be settled in each case by itself. -/
theorem LeadsTo.cases {ι : Sort*} {case : ι → σ → Prop} (first : x.LeadsTo P fun s => Q s ∨ ∃ i, case i s)
    (each : ∀ i, x.LeadsTo (case i) Q) : x.LeadsTo P Q := by
  intro n holds
  obtain ⟨k, later, come | ⟨i, here⟩⟩ := first n holds
  · exact ⟨k, later, come⟩
  · obtain ⟨j, last, come⟩ := each i k here
    exact ⟨j, later.trans last, come⟩

/-- Every step leads on, or it is not of the fair kind and all is as before. -/
theorem Fair.leadsTo (fair : x.Fair kind done) (undone : ∀ s, P s → done s → Q s)
    (steps : ∀ {s event t}, P s → m.step s event = some t → kind event = false ∧ P t ∨ Q t) :
    x.LeadsTo P Q := by
  intro n holds
  obtain ⟨k, later, happens⟩ := fair n
  obtain now | ⟨j, after, -, come⟩ :=
    x.stays (fun _ now taken => (steps now (x.step taken)).imp And.right id) holds later
  · obtain reached | ⟨event, taken, own⟩ := happens
    · exact ⟨k, later, undone _ now reached⟩
    · obtain ⟨other, -⟩ | come := steps now (x.step taken)
      · cases own.symm.trans other
      · exact ⟨k + 1, Nat.le_succ_of_le later, come⟩
  · exact ⟨j, after, come⟩

/-- An execution in which all is done in the end passes nobody over. -/
theorem fair_of_done (reached : ∀ k, n ≤ k → done (x.state k)) : x.Fair kind done :=
  fun k => ⟨max k n, Nat.le_max_left k n, .inl (reached _ (Nat.le_max_right k n))⟩

end Execution

variable {target : σ}

/-- A run, and then nothing more. -/
theorem Run.exists_execution {events : List ε} (run : m.Run source events target) :
    ∃ (x : m.Execution source) (n : ℕ), ∀ k, n ≤ k → x.state k = target := by
  have reached (n : ℕ) : ∃ s, m.Run source (events.take n) s := by
    obtain ⟨s, _, _, before, _⟩ := run.cut (List.take_prefix n events)
    exact ⟨s, before⟩
  choose state runs using reached
  refine ⟨⟨state, fun n => events[n]?, Run.nil_iff.mp (runs 0), fun n => ?_⟩, events.length, fun n beyond => ?_⟩
  · have longer := runs (n + 1)
    rw [List.take_add_one, Run.append_iff] at longer
    obtain ⟨middle, before, last⟩ := longer
    obtain rfl := before.deterministic (runs n)
    exact last
  · have whole := runs n
    rw [List.take_of_length_le beyond] at whole
    exact whole.deterministic run

end LabeledMachine
