import Mathlib.Data.List.Induction
import Mathlib.Data.Option.Basic

/-! # Finite runs of deterministic labelled machines

A machine moves by labels that carry every outside choice, so a label tape determines the whole
run and a tape can be replayed by evaluation. Invariants here see the tape as well as the state:
what has happened so far is read off the labels, and no state carries history for a proof's sake.
`Along` restricts the steps of one run; it is how an assumption about every step is stated.
-/

/-- A labelled machine: each event moves a state or is refused there. -/
structure LabeledMachine (State Event : Type*) where
  step : State → Event → Option State

namespace LabeledMachine

variable {σ ε : Type*} (m : LabeledMachine σ ε)

/-- Replay a tape of events, stopping at the first one that is refused. -/
def replay? (source : σ) (events : List ε) : Option σ := events.foldlM m.step source

/-- The tape leads from `source` to `target`. -/
def Run (source : σ) (events : List ε) (target : σ) : Prop :=
  m.replay? source events = some target

/-- Every step of every run of `m` along `events`, with the tape and the state before it. -/
def Along (source : σ) (events : List ε) (allowed : List ε → σ → ε → Prop) : Prop :=
  ∀ prior middle event, prior ++ [event] <+: events → m.Run source prior middle →
    allowed prior middle event

variable {m} {source middle target : σ} {event : ε} {events first second : List ε}

namespace Run

@[simp] theorem nil_iff : m.Run source [] target ↔ target = source := by
  simp [Run, replay?, eq_comm]

theorem refl (source : σ) : m.Run source [] source := nil_iff.mpr rfl

theorem append_iff : m.Run source (first ++ second) target ↔
    ∃ middle, m.Run source first middle ∧ m.Run middle second target := by
  simp only [Run, replay?, List.foldlM_append, bind, Option.bind_eq_some_iff]

theorem append (left : m.Run source first middle) (right : m.Run middle second target) :
    m.Run source (first ++ second) target := append_iff.mpr ⟨middle, left, right⟩

theorem cons_iff : m.Run source (event :: events) target ↔
    ∃ middle, m.step source event = some middle ∧ m.Run middle events target := by
  simp only [Run, replay?, List.foldlM_cons, bind, Option.bind_eq_some_iff]

@[simp] theorem singleton_iff : m.Run source [event] target ↔ m.step source event = some target := by
  simp [cons_iff]

/-- The last event of a run is one step from a state the run has reached. -/
theorem concat_iff : m.Run source (events ++ [event]) target ↔
    ∃ middle, m.Run source events middle ∧ m.step middle event = some target := by
  simp [append_iff]

theorem deterministic {other : σ} (left : m.Run source events target)
    (right : m.Run source events other) : target = other :=
  Option.some.inj (left.symm.trans right)

/-- A run can be cut after any prefix of its tape. -/
theorem cut (run : m.Run source events target) (within : first <+: events) :
    ∃ middle rest, events = first ++ rest ∧ m.Run source first middle ∧ m.Run middle rest target := by
  obtain ⟨rest, rfl⟩ := within
  obtain ⟨middle, left, right⟩ := append_iff.mp run
  exact ⟨middle, rest, rfl, left, right⟩

/-- An event of a run is taken in the state which the run has reached before it. -/
theorem step_within (run : m.Run source events target) (within : first ++ [event] <+: events)
    (before : m.Run source first middle) : ∃ next, m.step middle event = some next := by
  obtain ⟨next, _, _, cut, _⟩ := run.cut within
  obtain ⟨other, same, stepped⟩ := concat_iff.mp cut
  obtain rfl := before.deterministic same
  exact ⟨next, stepped⟩

/-- What holds of the empty tape and survives each step holds of every run. -/
theorem invariant {I : List ε → σ → Prop} (run : m.Run source events target)
    (initial : I [] source)
    (preserved : ∀ prior middle event next, m.Run source prior middle → I prior middle →
      m.step middle event = some next → I (prior ++ [event]) next) :
    I events target := by
  induction events using List.reverseRecOn generalizing target with
  | nil => rw [nil_iff.mp run]; exact initial
  | append_singleton prior event ih =>
    obtain ⟨middle, before, step⟩ := concat_iff.mp run
    exact preserved prior middle event target before (ih before) step

/-- The same rule where every step of the run is allowed. -/
theorem invariant_along {I : List ε → σ → Prop} {allowed : List ε → σ → ε → Prop}
    (run : m.Run source events target) (along : m.Along source events allowed)
    (initial : I [] source)
    (preserved : ∀ prior middle event next, m.Run source prior middle → I prior middle →
      allowed prior middle event → m.step middle event = some next → I (prior ++ [event]) next) :
    I events target := by
  refine (run.invariant (I := fun tape state => tape <+: events → I tape state)
    (fun _ => initial) ?_) (List.prefix_rfl)
  intro prior middle event next before holds step within
  have earlier : prior <+: events := (List.prefix_append prior [event]).trans within
  exact preserved prior middle event next before (holds earlier)
    (along prior middle event within before) step

end Run

namespace Along

variable {allowed : List ε → σ → ε → Prop}

theorem nil : m.Along source [] allowed := by
  intro prior middle event within
  simp at within

/-- A restriction on a longer tape restricts every prefix of it. -/
theorem restrict (along : m.Along source events allowed) (cut : first <+: events) :
    m.Along source first allowed :=
  fun prior middle event within => along prior middle event (within.trans cut)

/-- A tape may go on with events that are allowed anywhere. -/
theorem append (along : m.Along source first allowed)
    (free : ∀ event ∈ second, ∀ prior state, allowed prior state event) :
    m.Along source (first ++ second) allowed := by
  intro prior middle event within before
  rcases List.prefix_or_prefix_of_prefix within (List.prefix_append first second) with inFirst | beyond
  · exact along prior middle event inFirst before
  · obtain ⟨extra, split⟩ := beyond
    rcases List.eq_nil_or_concat extra with rfl | ⟨_, last, rfl⟩
    · rw [List.append_nil] at split
      exact along prior middle event (split ▸ List.prefix_rfl) before
    · rw [← split, List.prefix_append_right_inj] at within
      rw [List.concat_eq_append, ← List.append_assoc] at split
      obtain rfl := List.singleton_inj.mp (List.append_inj' split rfl).2
      exact free last (within.subset (by simp)) prior middle

theorem concat_iff (run : m.Run source events middle) :
    m.Along source (events ++ [event]) allowed ↔
      m.Along source events allowed ∧ allowed events middle event := by
  constructor
  · intro along
    exact ⟨along.restrict (List.prefix_append _ _), along events middle event List.prefix_rfl run⟩
  · rintro ⟨along, last⟩ prior other action within before
    rcases List.prefix_concat_iff.mp within with same | earlier
    · obtain ⟨rfl, last_event⟩ := List.append_inj' same rfl
      obtain rfl := List.singleton_inj.mp last_event
      rwa [before.deterministic run]
    · exact along prior other action earlier before

end Along

/-- What is read off a tape grows by what is read off its next event. -/
theorem filterMap_concat {β : Type*} (f : ε → Option β) (events : List ε) (event : ε) :
    (events ++ [event]).filterMap f = events.filterMap f ++ (f event).toList := by
  cases seen : f event <;> simp [List.filterMap_append, seen]

end LabeledMachine
