import Mathlib.Algebra.GroupWithZero.Divisibility
import Mathlib.Algebra.Order.Ring.Nat
import Mathlib.Data.List.Basic
import Mathlib.Data.List.Defs

/-! # Cutting a list into chunks

Batteries defines `List.toChunks` by two accumulators and proves nothing of it. One unfolding
equation is all that later proofs need: a nonempty list gives its first `n` elements and then the
chunks of the rest. The chunks flatten to the list, and only the last one can be short.
-/

namespace List

variable {α : Type*}

private theorem toChunks_go_append (n : ℕ) (xs : List α) (chunk : Array α) (done : Array (List α)) :
    toChunks.go n xs chunk done = done.toList ++ toChunks.go n xs chunk #[] := by
  induction xs generalizing chunk done with
  | nil => simp [toChunks.go]
  | cons x xs ih =>
    simp only [toChunks.go]
    split
    · rw [ih, ih _ (#[].push _)]
      simp
    · exact ih _ _

private theorem toChunks_go_eq {n : ℕ} (positive : 0 < n) (xs : List α) (chunk : Array α)
    (fits : chunk.size ≤ n) :
    toChunks.go n xs chunk #[] =
      (chunk.toList ++ xs.take (n - chunk.size)) :: (xs.drop (n - chunk.size)).toChunks n := by
  induction xs generalizing chunk with
  | nil => simp [toChunks.go, toChunks]
  | cons x xs ih =>
    simp only [toChunks.go]
    split
    · next full =>
      have same : chunk.size = n := by simpa using full
      obtain ⟨m, rfl⟩ := Nat.exists_eq_succ_of_ne_zero positive.ne'
      rw [toChunks_go_append]
      simp [same, toChunks]
    · next short =>
      have room : chunk.size ≠ n := by simpa using short
      have left : n - chunk.size = (n - (chunk.size + 1)) + 1 := by omega
      rw [ih (chunk.push x) (by simp; omega), left]
      simp

/-- A nonempty list is its first chunk and the chunks of the rest. -/
theorem toChunks_of_ne_nil {n : ℕ} (positive : 0 < n) {xs : List α} (nonempty : xs ≠ []) :
    xs.toChunks n = xs.take n :: (xs.drop n).toChunks n := by
  obtain ⟨m, rfl⟩ := Nat.exists_eq_succ_of_ne_zero positive.ne'
  cases xs with
  | nil => exact absurd rfl nonempty
  | cons x xs =>
    have first := toChunks_go_eq positive xs #[x] (by simp)
    simpa [toChunks] using first

@[simp] theorem toChunks_nil (n : ℕ) : ([] : List α).toChunks n = [] := by cases n <;> rfl

/-- Reason about chunks by removing one at a time. -/
theorem chunkInduction {n : ℕ} (positive : 0 < n) {motive : List α → Prop} (nil : motive [])
    (chunk : ∀ xs, xs ≠ [] → motive (xs.drop n) → motive xs) (xs : List α) : motive xs := by
  induction size : xs.length using Nat.strongRecOn generalizing xs with
  | ind len ih =>
    rcases eq_or_ne xs [] with rfl | nonempty
    · exact nil
    · have shorter : (xs.drop n).length < len := by
        have := length_pos_iff.mpr nonempty
        rw [length_drop]
        omega
      exact chunk xs nonempty (ih _ shorter _ rfl)

theorem flatten_toChunks {n : ℕ} (positive : 0 < n) (xs : List α) : (xs.toChunks n).flatten = xs := by
  induction xs using chunkInduction positive with
  | nil => simp
  | chunk xs nonempty ih => rw [toChunks_of_ne_nil positive nonempty, flatten_cons, ih, take_append_drop]

theorem length_toChunks {n : ℕ} (positive : 0 < n) (xs : List α) :
    (xs.toChunks n).length = (xs.length + n - 1) / n := by
  induction xs using chunkInduction positive with
  | nil =>
    rw [toChunks_nil, length_nil, Nat.div_eq_of_lt (by rw [length_nil]; omega)]
  | chunk xs nonempty ih =>
    have := length_pos_iff.mpr nonempty
    rw [toChunks_of_ne_nil positive nonempty, length_cons, ih, length_drop]
    rcases Nat.lt_or_ge n xs.length with longer | shorter
    · rw [← Nat.add_div_right _ positive]
      congr 1
      omega
    · rw [Nat.div_eq_of_lt (by omega), Nat.div_eq_of_lt_le (k := 1) (by omega) (by omega)]

/-- When the length is a multiple of the chunk size, every chunk is full. -/
theorem length_of_mem_toChunks {n : ℕ} (positive : 0 < n) {xs : List α} (multiple : n ∣ xs.length) :
    ∀ chunk ∈ xs.toChunks n, chunk.length = n := by
  induction xs using chunkInduction positive with
  | nil => simp
  | chunk xs nonempty ih =>
    have := length_pos_iff.mpr nonempty
    have enough := Nat.le_of_dvd this multiple
    rw [toChunks_of_ne_nil positive nonempty]
    intro chunk member
    rcases mem_cons.mp member with rfl | later
    · rw [length_take, Nat.min_eq_left enough]
    · exact ih (by rw [length_drop]; exact Nat.dvd_sub multiple dvd_rfl) chunk later

/-- Otherwise the full chunks are followed by one with the remaining elements. -/
theorem toChunks_eq_append_last {n : ℕ} (positive : 0 < n) {xs : List α} (partly : xs.length % n ≠ 0) :
    xs.toChunks n = (xs.take (n * (xs.length / n))).toChunks n ++ [xs.drop (n * (xs.length / n))] := by
  induction xs using chunkInduction positive with
  | nil => simp at partly
  | chunk xs nonempty ih =>
    rcases Nat.lt_or_ge xs.length n with short | enough
    · rw [toChunks_of_ne_nil positive nonempty, Nat.div_eq_of_lt short, take_of_length_le short.le,
        drop_of_length_le short.le]
      simp
    · have quotient : xs.length / n = (xs.length - n) / n + 1 := by
        rw [← Nat.add_div_right _ positive, Nat.sub_add_cancel enough]
      have rest := ih (by rwa [length_drop, ← Nat.mod_eq_sub_mod enough])
      have taken : xs.take (n * (xs.length / n)) ≠ [] := by
        rw [ne_eq, take_eq_nil_iff]
        rw [quotient]
        simp [positive.ne', nonempty]
      rw [toChunks_of_ne_nil positive nonempty, rest, toChunks_of_ne_nil positive taken, length_drop,
        drop_drop, quotient, cons_append, take_take, drop_take]
      congr 3
      · simp [Nat.mul_add]
      · rw [Nat.mul_add, Nat.mul_one, Nat.add_sub_cancel]
      · rw [Nat.mul_add, Nat.mul_one, Nat.add_comm]

end List
