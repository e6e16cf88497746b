import OtaCli.Proofs.FlashFrames

/-! # Which file lengths are flashed to the end

The loop body indexes four bytes of every chunk, and the last chunk of a file whose length is not a
multiple of four has fewer. Such a file is begun, written up to its last full chunk and abandoned.
-/

namespace OtaCli.Proofs.FlashShape

open Model Model.FileUpdater FlashTranscript FlashFrames

/-- Once begun, the flash is gone through: whatever the calls return, every chunk is sent, a shorter
last one with its own size, then the end command, and true is returned. -/
def FlashesWholly (content : List UInt8) (targetDeviceId : UInt8) : Prop :=
  ∀ answers, let t := (update (.ok content) targetDeviceId).transcript answers
    (∃ p ∈ t.commands, p.cmd = Commands.FLASH_BEGIN) →
      t.result = .ok true ∧ ∃ first data last, t.commands = first :: (data ++ [last]) ∧
        first.cmd = Commands.FLASH_BEGIN ∧ (∀ p ∈ data, p.cmd = Commands.FLASH_DATA) ∧
        last.cmd = Commands.FLASH_END ∧ data.length = (content.length + 3) / 4 ∧
        (content.length % 4 ≠ 0 → ∃ p, data.getLast? = some p ∧
          p.size.toNat = content.length % 4 ∧
            (p.data.drop 1).take p.size.toNat = content.drop (4 * (content.length / 4)))

variable {content : List UInt8} (targetDeviceId : UInt8)

/-- A file with a shorter last chunk is begun, and then an exception is thrown. -/
theorem not_flashesWholly (partly : ¬ 4 ∣ content.length) (readable : content.length ≤ maxLength) :
    ¬ FlashesWholly content targetDeviceId := by
  intro wholly
  have performs := update_performs targetDeviceId (.ok content) []
  rw [planned_of_readable targetDeviceId readable] at performs
  have begun := wholly []
  simp only [performs, flashTranscript, if_neg partly] at begun
  obtain ⟨returned, -⟩ := begun ⟨_, List.mem_cons_self, rfl⟩
  cases returned

private theorem flashesWholly_of_dvd (multiple : 4 ∣ content.length) (readable : content.length ≤ maxLength) :
    FlashesWholly content targetDeviceId := by
  intro answers t _
  have performs : t = flashTranscript content targetDeviceId := by
    rw [← planned_of_readable targetDeviceId readable]
    exact update_performs targetDeviceId (.ok content) answers
  have carries := flashTranscript_carriesImage targetDeviceId multiple readable
  rw [performs]
  refine ⟨if_pos multiple, _, _, _, ?_, carries.begins, carries.writes, carries.ends, carries.count, ?_⟩
  · rw [flashTranscript, if_pos multiple]
  · intro tail
    omega

/-- A file is flashed to the end exactly when its length is a multiple of four; a file too long to be
read is not begun. -/
theorem flashesWholly_iff (content : List UInt8) (targetDeviceId : UInt8) :
    FlashesWholly content targetDeviceId ↔ 4 ∣ content.length ∨ maxLength < content.length := by
  constructor
  · intro wholly
    by_contra neither
    obtain ⟨partly, readable⟩ := not_or.mp neither
    exact not_flashesWholly targetDeviceId partly (Nat.not_lt.mp readable) wholly
  · intro shape
    rcases Nat.lt_or_ge maxLength content.length with long | readable
    · intro answers t ⟨p, member, _⟩
      have nothing : t = planned targetDeviceId (.ok content) :=
        update_performs targetDeviceId (.ok content) answers
      rw [nothing, planned_of_too_long targetDeviceId long] at member
      cases member
    · exact flashesWholly_of_dvd targetDeviceId (shape.resolve_right (Nat.not_lt.mpr readable)) readable

/-- Of five bytes, four are written. -/
theorem not_flashesWholly_five_bytes : ¬ FlashesWholly [1, 2, 3, 4, 5] 9 :=
  not_flashesWholly 9 (by decide) (by decide)

end OtaCli.Proofs.FlashShape
