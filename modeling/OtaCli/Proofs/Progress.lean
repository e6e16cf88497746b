import OtaCli.Proofs.FlashTranscript

/-! # The progress that is printed

Before each chunk the loop prints `(i * 100) / count` in 32-bit arithmetic. The product leaves the
range from round 21474837 on, and then a negative number is printed. A file of up to 85899348 bytes
has no such round.
-/

namespace OtaCli.Proofs.Progress

open Model Model.FileUpdater FlashTranscript

/-- What is printed is the exact quotient in every round. -/
structure Exact (count : ℕ) (t : Transcript Bool) : Prop where
  exact : ∀ i value, t.printed[i]? = some value → value.toInt = ((100 * i / count : ℕ) : ℤ)
  divides : t.result ≠ .error .divideByZero
  percent : ∀ value ∈ t.printed, 0 ≤ value.toInt ∧ value.toInt ≤ 99
  increases : t.printed.Pairwise fun earlier later => earlier.toInt ≤ later.toInt

/-- Whatever the calls return. -/
def ExactProgress (content : List UInt8) (targetDeviceId : UInt8) : Prop :=
  ∀ answers, Exact (content.toChunks 4).length
    ((update (.ok content) targetDeviceId).transcript answers)

section Quotients

variable {count i : ℕ}

private theorem count_toInt (bound : count < 2 ^ 31) : (Int32.ofNat count).toInt = count :=
  Int32.toInt_ofNat_of_lt bound

private theorem product_toInt (i : ℕ) (bound : i < 2 ^ 31) :
    (Int32.ofNat i * 100).toInt = ((i : ℤ) * 100).bmod (2 ^ 32) := by
  rw [Int32.toInt_mul, count_toInt bound]
  rfl

private theorem progress_toInt (bound : count < 2 ^ 31) (i : ℕ) :
    (progress count i).toInt = (Int32.ofNat i * 100).toInt.tdiv count := by
  have notMinusOne : Int32.ofNat count ≠ -1 := by
    intro same
    have value := count_toInt bound
    rw [same] at value
    simp at value
  rw [progress, Int32.toInt_div_of_ne_right _ _ notMinusOne, count_toInt bound]

/-- While the product stays in range, the quotient is exact. -/
private theorem progress_of_small (bound : count < 2 ^ 31) (small : i ≤ 21474836) :
    (progress count i).toInt = ((100 * i / count : ℕ) : ℤ) := by
  have product : (Int32.ofNat i * 100).toInt = ((100 * i : ℕ) : ℤ) := by
    rw [product_toInt i (by omega), Int.bmod_eq_of_le (by omega) (by omega)]
    omega
  rw [progress_toInt bound, product, Int.ofNat_tdiv]

/-- The first product out of range wraps to a negative number, greater in size than any count. -/
private theorem progress_of_wrapped (bound : count ≤ 536870911) (reached : 21474837 < count) :
    (progress count 21474837).toInt < 0 := by
  have product : (Int32.ofNat 21474837 * 100).toInt = -((2147483596 : ℕ) : ℤ) := by decide
  have quotient : 0 < 2147483596 / count := Nat.div_pos (by omega) (by omega)
  rw [progress_toInt (by omega), product, Int.neg_tdiv, ← Int.ofNat_tdiv]
  omega

end Quotients

section Files

variable {content : List UInt8} (targetDeviceId : UInt8)

theorem count_le_iff : (content.toChunks 4).length ≤ 21474837 ↔ content.length ≤ 85899348 := by
  rw [List.length_toChunks (by decide)]
  omega

private theorem count_bound (readable : content.length ≤ maxLength) :
    (content.toChunks 4).length ≤ 536870911 := by
  have limit : maxLength = 2147483591 := rfl
  rw [List.length_toChunks (by decide)]
  omega

/-- A file that is too long to be read prints nothing. -/
private theorem exactProgress_of_too_long (long : maxLength < content.length) :
    ExactProgress content targetDeviceId := by
  intro answers
  rw [update_performs targetDeviceId (.ok content) answers, planned_of_too_long targetDeviceId long]
  exact ⟨by simp, by simp, by simp, by simp⟩

theorem printed_eq (readable : content.length ≤ maxLength) (answers : List (Option ResponsePacket)) :
    (update (.ok content) targetDeviceId).transcript answers = flashTranscript content targetDeviceId := by
  rw [update_performs targetDeviceId (.ok content) answers, planned_of_readable targetDeviceId readable]

/-- In a file with few enough chunks every round prints the exact quotient. -/
private theorem exactProgress_of_few (readable : content.length ≤ maxLength)
    (few : (content.toChunks 4).length ≤ 21474837) : ExactProgress content targetDeviceId := by
  intro answers
  rw [printed_eq targetDeviceId readable answers]
  have value (i : ℕ) (inside : i < (content.toChunks 4).length) :
      (progress (content.toChunks 4).length i).toInt = ((100 * i / (content.toChunks 4).length : ℕ) : ℤ) :=
    progress_of_small (by omega) (by omega)
  refine ⟨?_, ?_, ?_, ?_⟩
  · intro i printed isPrinted
    simp only [flashTranscript, List.getElem?_map, Option.map_eq_some_iff] at isPrinted
    obtain ⟨k, atRound, rfl⟩ := isPrinted
    obtain ⟨inside, rfl⟩ := List.getElem?_eq_some_iff.mp atRound
    rw [List.length_range] at inside
    rw [List.getElem_range]
    exact value i inside
  · simp only [flashTranscript]
    split <;> simp
  · intro printed member
    simp only [flashTranscript, List.mem_map, List.mem_range] at member
    obtain ⟨i, inside, rfl⟩ := member
    have percent : 100 * i / (content.toChunks 4).length ≤ 99 := by
      rw [Nat.div_le_iff_le_mul_add_pred (by omega)]
      omega
    rw [value i inside]
    exact ⟨Int.natCast_nonneg _, by exact_mod_cast percent⟩
  · simp only [flashTranscript, List.pairwise_map]
    refine List.pairwise_lt_range.imp_of_mem fun {i k} early late before => ?_
    rw [value i (List.mem_range.mp early), value k (List.mem_range.mp late)]
    exact_mod_cast Nat.div_le_div_right (Nat.mul_le_mul_left 100 before.le)

/-- Round 21474837 prints a negative number. -/
theorem few_of_exactProgress (readable : content.length ≤ maxLength)
    (exact : ExactProgress content targetDeviceId) : (content.toChunks 4).length ≤ 21474837 := by
  by_contra many
  have printed := (exact []).percent (progress (content.toChunks 4).length 21474837)
  rw [printed_eq targetDeviceId readable] at printed
  have member : progress (content.toChunks 4).length 21474837 ∈
      (flashTranscript content targetDeviceId).printed :=
    List.mem_map.mpr ⟨21474837, List.mem_range.mpr (by omega), rfl⟩
  have negative := progress_of_wrapped (count_bound readable) (by omega)
  have percent := printed member
  omega

end Files

/-- The progress of a file that can be read is exact in every round exactly when the file has no more
than 85899348 bytes. -/
theorem exactProgress_iff (content : List UInt8) (targetDeviceId : UInt8) :
    ExactProgress content targetDeviceId ↔ content.length ≤ 85899348 ∨ maxLength < content.length := by
  rcases Nat.lt_or_ge maxLength content.length with long | readable
  · exact iff_of_true (exactProgress_of_too_long targetDeviceId long) (.inr long)
  · rw [← count_le_iff]
    constructor
    · exact fun exact => .inl (few_of_exactProgress targetDeviceId readable exact)
    · intro shape
      exact exactProgress_of_few targetDeviceId readable
        (shape.resolve_right (Nat.not_lt.mpr readable))

/-- Four bytes more are one round too many. -/
theorem not_exactProgress_of_many : ¬ ExactProgress (List.replicate 85899352 0) 9 := by
  intro exact
  have few := few_of_exactProgress 9 (by rw [List.length_replicate]; decide) exact
  rw [count_le_iff, List.length_replicate] at few
  exact absurd few (by decide)

end OtaCli.Proofs.Progress
