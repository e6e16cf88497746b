import Mathlib.Data.List.Basic

/-! # Overwriting a block of a list

An array-copy loop writes consecutive elements of a source over a target. Mathlib has the single
write `List.set`; this is the block it builds up, with the step that a loop body takes.
-/

namespace List

variable {α : Type*}

/-- Replace the elements of `target` from index `start` on by those of `source`. -/
def overwrite (target : List α) (start : ℕ) (source : List α) : List α :=
  target.take start ++ source ++ target.drop (start + source.length)

@[simp] theorem overwrite_nil (target : List α) (start : ℕ) : target.overwrite start [] = target := by
  simp [overwrite]

/-- One loop iteration: writing the head and then the tail one place further on. -/
theorem overwrite_set_succ {target : List α} {start : ℕ} (bound : start < target.length)
    (head : α) (tail : List α) :
    (target.set start head).overwrite (start + 1) tail = target.overwrite start (head :: tail) := by
  have prefix_eq : (target.set start head).take (start + 1) = target.take start ++ [head] := by
    rw [take_succ_eq_append_getElem (by simpa using bound), getElem_set_self,
      take_set_of_le (Nat.le_refl _)]
  have suffix_eq : (target.set start head).drop (start + 1 + tail.length) =
      target.drop (start + (head :: tail).length) := by
    rw [drop_set_of_lt (by omega), length_cons, Nat.add_assoc, Nat.add_comm 1]
  simp only [overwrite, prefix_eq, suffix_eq, append_assoc, singleton_append]

/-- A source as long as the rest of the target leaves only the part before it. -/
theorem overwrite_of_length_eq {target source : List α} {start : ℕ}
    (fills : start + source.length = target.length) :
    target.overwrite start source = target.take start ++ source := by
  simp [overwrite, fills]

end List
