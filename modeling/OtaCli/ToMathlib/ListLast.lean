import Mathlib.Data.List.Induction

/-! # What is left of a sequence of writes

A component of a state which each step either overwrites or keeps is, at the end, the last value
written, or what it was at the start.
-/

namespace List

variable {σ α β : Type*}

theorem foldl_read (step : σ → α → σ) (get : σ → β) (pick : α → Option β)
    (written : ∀ s a, get (step s a) = (pick a).getD (get s)) (s : σ) (l : List α) :
    get (l.foldl step s) = (l.filterMap pick).getLast?.getD (get s) := by
  induction l using List.reverseRecOn with
  | nil => rfl
  | append_singleton l a ih =>
    rw [foldl_append, foldl_cons, foldl_nil, written, ih, filterMap_append]
    cases picked : pick a <;> simp [picked]

end List
