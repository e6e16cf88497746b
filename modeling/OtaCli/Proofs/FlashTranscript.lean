import OtaCli.Model.FileUpdater

/-! # What flashing a file sends

`update` performs its `planned` transcript. The chunk loop is cut at the end of the full chunks: up
to there each round prints, sends a packet and counts on, and a shorter chunk ends it with an
exception after printing.
-/

namespace OtaCli.Proofs.FlashTranscript

open Model Model.FileUpdater Model.Client

theorem dataBytes_of_full (msc : UInt8) {chunk : List UInt8} (full : chunk.length = 4) :
    dataBytes msc chunk = .ok (msc :: chunk) := by
  match chunk, full with
  | [b0, b1, b2, b3], _ => rfl

theorem dataBytes_of_short (msc : UInt8) {chunk : List UInt8} (short : chunk.length < 4) :
    dataBytes msc chunk = .error .indexOutOfRange := by
  match chunk, short with
  | [], _ => rfl
  | [b0], _ => rfl
  | [b0, b1], _ => rfl
  | [b0, b1, b2], _ => rfl

theorem next_counter (k : ℕ) :
    (if UInt8.ofNat k = 255 then 0 else UInt8.ofNat k + 1) = UInt8.ofNat (k + 1) := by
  have sum : UInt8.ofNat k + 1 = UInt8.ofNat (k + 1) := by simp
  split
  · next last => rw [← sum, last]; rfl
  · exact sum

private theorem divide_count (dividend : Int32) {count : ℕ} (positive : 0 < count)
    (bound : count ≤ 2 ^ 31 - 1) :
    divide dividend (Int32.ofNat count) = .ok (dividend / Int32.ofNat count) := by
  have value : (Int32.ofNat count).toInt = count := Int32.toInt_ofNat_of_lt (by omega)
  have nonzero : Int32.ofNat count ≠ 0 := by
    intro zero
    rw [zero] at value
    simp at value
    omega
  have notMinusOne : Int32.ofNat count ≠ -1 := by
    intro negative
    rw [negative] at value
    simp at value
  simp [divide, nonzero, notMinusOne, pure, Except.pure]

variable (targetDeviceId : UInt8)

/-- One iteration over a full chunk. -/
private theorem updateLoop_cons {count : ℕ} (positive : 0 < count) (bound : count ≤ 2 ^ 31 - 1)
    {chunk : List UInt8} (full : chunk.length = 4) (rest : List (List UInt8)) (k : ℕ) :
    updateLoop targetDeviceId (Int32.ofNat count) (chunk :: rest) (UInt8.ofNat k) (Int32.ofNat k) =
      .writeLine (progress count k) (.writeCmdMsgRsp (dataPacket targetDeviceId k chunk) fun _ =>
        updateLoop targetDeviceId (Int32.ofNat count) rest (UInt8.ofNat (k + 1))
          (Int32.ofNat (k + 1))) := by
  have short : (UInt8.ofNat k :: chunk).length ≤ 5 := by simp [full]
  have index : Int32.ofNat k + 1 = Int32.ofNat (k + 1) := by simp
  simp only [updateLoop, divide_count _ positive bound, dataBytes_of_full _ full, Client.lift_ok,
    Client.ret_bind, Client.print_bind, Client.call_bind, CommandPacket.ofFields_eq _ _ _ _ short,
    next_counter, index]
  rfl

theorem updateLoop_append {count : ℕ} (positive : 0 < count) (bound : count ≤ 2 ^ 31 - 1)
    {full : List (List UInt8)} (lengths : ∀ chunk ∈ full, chunk.length = 4)
    (rest : List (List UInt8)) (k : ℕ) {t : Transcript Unit}
    (tail : Performs (updateLoop targetDeviceId (Int32.ofNat count) rest
      (UInt8.ofNat (k + full.length)) (Int32.ofNat (k + full.length))) t) :
    Performs (updateLoop targetDeviceId (Int32.ofNat count) (full ++ rest) (UInt8.ofNat k)
        (Int32.ofNat k))
      ⟨dataPackets targetDeviceId k full ++ t.commands,
        (List.range' k full.length).map (progress count) ++ t.printed, t.result⟩ := by
  induction full generalizing k with
  | nil => exact tail
  | cons chunk full ih =>
    have further := ih (fun c member => lengths c (List.mem_cons_of_mem _ member)) (k + 1)
      (by rwa [Nat.add_assoc, Nat.add_comm 1])
    have fullChunk := lengths chunk List.mem_cons_self
    rw [List.cons_append, updateLoop_cons targetDeviceId positive bound fullChunk]
    exact performs_writeLine_iff.mpr
      ⟨_, performs_call_iff.mpr ⟨_, fun _ => further, rfl⟩, rfl⟩

/-- The iteration that meets a short chunk prints its number and throws. -/
private theorem updateLoop_short {count : ℕ} (positive : 0 < count) (bound : count ≤ 2 ^ 31 - 1)
    {chunk : List UInt8} (short : chunk.length < 4) (k : ℕ) :
    Performs (updateLoop targetDeviceId (Int32.ofNat count) [chunk] (UInt8.ofNat k) (Int32.ofNat k))
      ⟨[], [progress count k], .error .indexOutOfRange⟩ := by
  simp only [updateLoop, divide_count _ positive bound, dataBytes_of_short _ short, Client.lift_ok,
    Client.ret_bind, Client.print_bind, Client.lift_error, Client.raise_bind]
  exact performs_writeLine_iff.mpr ⟨_, performs_raise_iff.mpr rfl, rfl⟩

private theorem count_bounds {content : List UInt8} (nonempty : content ≠ [])
    (readable : content.length ≤ maxLength) :
    0 < (content.toChunks 4).length ∧ (content.toChunks 4).length ≤ 2 ^ 31 - 1 := by
  have := List.length_pos_iff.mpr nonempty
  have : maxLength ≤ 2 ^ 31 - 1 := by decide
  rw [List.length_toChunks (by decide)]
  omega

theorem length_of_mem_fullChunks (content : List UInt8) :
    ∀ chunk ∈ fullChunks content, chunk.length = 4 := by
  apply List.length_of_mem_toChunks (by decide)
  rw [List.length_take]
  omega

/-- The chunks of a file are its full chunks and, unless the length is a multiple of four, one
shorter chunk. -/
theorem toChunks_eq (content : List UInt8) :
    content.toChunks 4 = fullChunks content ++
      if 4 ∣ content.length then [] else [content.drop (4 * (content.length / 4))] := by
  split
  · next multiple =>
    rw [fullChunks, Nat.mul_div_cancel' multiple, List.take_length, List.append_nil]
  · next partly =>
    exact List.toChunks_eq_append_last (by decide) (by omega)

theorem fullChunks_of_dvd {content : List UInt8} (multiple : 4 ∣ content.length) :
    fullChunks content = content.toChunks 4 := by
  rw [toChunks_eq, if_pos multiple, List.append_nil]

/-- The chunk loop of a readable file, whatever the calls return. -/
private theorem updateLoop_performs {content : List UInt8} (readable : content.length ≤ maxLength) :
    Performs (updateLoop targetDeviceId (Int32.ofNat (content.toChunks 4).length)
        (content.toChunks 4) 0 0)
      ⟨dataPackets targetDeviceId 0 (fullChunks content),
        (List.range (content.toChunks 4).length).map (progress (content.toChunks 4).length),
        if 4 ∣ content.length then .ok () else .error .indexOutOfRange⟩ := by
  rcases eq_or_ne content [] with rfl | nonempty
  · exact performs_ret_iff.mpr rfl
  obtain ⟨positive, bound⟩ := count_bounds nonempty readable
  have lengths := length_of_mem_fullChunks content
  by_cases multiple : 4 ∣ content.length
  · have chunks : content.toChunks 4 = fullChunks content ++ [] := by rw [toChunks_eq, if_pos multiple]
    have performs := updateLoop_append targetDeviceId positive bound lengths [] 0
      (performs_ret_iff.mpr rfl)
    rw [← chunks] at performs
    simpa [multiple, List.range_eq_range', chunks] using performs
  · have chunks := toChunks_eq content
    rw [if_neg multiple] at chunks
    have short : (content.drop (4 * (content.length / 4))).length < 4 := by
      rw [List.length_drop]
      omega
    have performs := updateLoop_append targetDeviceId positive bound lengths _ 0
      (updateLoop_short targetDeviceId positive bound short _)
    rw [← chunks] at performs
    have printed : (content.toChunks 4).length = (fullChunks content).length + 1 := by simp [chunks]
    simpa [multiple, List.range_eq_range', printed, List.range'_concat] using performs

/-- The body of `Update` on a readable file, with the length packets built. -/
theorem update_eq {content : List UInt8} (readable : content.length ≤ maxLength) :
    update (.ok content) targetDeviceId =
      .writeCmdMsgRsp (lengthPacket Commands.FLASH_BEGIN targetDeviceId content.length) fun _ =>
        updateLoop targetDeviceId (Int32.ofNat (content.toChunks 4).length) (content.toChunks 4) 0 0 >>=
          fun _ => .writeCmdMsgRsp (lengthPacket Commands.FLASH_END targetDeviceId content.length)
            fun _ => .ret true := by
  have read := fileToByteArray_eq_ok_iff.mpr ⟨rfl, readable⟩
  have four : (getBytes (Int32.ofNat content.length)).length ≤ 5 := by simp [getBytes]
  simp only [update, read, Client.lift_ok, Client.ret_bind, Client.call_bind,
    CommandPacket.ofFields_eq _ _ _ _ four]
  rw [if_neg (by simp [getBytes])]
  rfl

/-- What `Update` does with any file: nothing at all when it cannot be read. -/
def planned (file : File) : Transcript Bool :=
  match fileToByteArray file with
  | .ok content => flashTranscript content targetDeviceId
  | .error e => ⟨[], [], .error e⟩

theorem planned_of_readable {content : List UInt8} (readable : content.length ≤ maxLength) :
    planned targetDeviceId (.ok content) = flashTranscript content targetDeviceId := by
  simp only [planned, fileToByteArray_eq_ok_iff.mpr ⟨rfl, readable⟩]

/-- A file that no array can hold is not begun. -/
theorem planned_of_too_long {content : List UInt8} (long : maxLength < content.length) :
    planned targetDeviceId (.ok content) = ⟨[], [], .error (.io "The file is too long.")⟩ := by
  have thrown : fileToByteArray (.ok content) = .error (.io "The file is too long.") := if_pos long
  simp only [planned, thrown]

/-- No answer of the device changes what `Update` sends, prints or returns. -/
theorem update_performs (file : File) :
    Performs (update file targetDeviceId) (planned targetDeviceId file) := by
  cases read : fileToByteArray file with
  | error e =>
    simp only [planned, update, read, Client.lift_error, Client.raise_bind]
    exact performs_raise_iff.mpr rfl
  | ok content =>
    obtain ⟨rfl, readable⟩ := fileToByteArray_eq_ok_iff.mp read
    have loop := updateLoop_performs targetDeviceId readable
    rw [update_eq targetDeviceId readable]
    simp only [planned, read]
    by_cases multiple : 4 ∣ content.length
    · rw [if_pos multiple] at loop
      have finish := loop.bind (f := fun _ => .writeCmdMsgRsp
        (lengthPacket Commands.FLASH_END targetDeviceId content.length) fun _ => .ret true) rfl
        (performs_call_iff.mpr ⟨_, fun _ => performs_ret_iff.mpr rfl, rfl⟩)
      refine performs_call_iff.mpr ⟨_, fun _ => finish, ?_⟩
      simp [flashTranscript, multiple]
    · rw [if_neg multiple] at loop
      refine performs_call_iff.mpr ⟨_, fun _ => loop.bind_error rfl, ?_⟩
      simp [flashTranscript, multiple]

end OtaCli.Proofs.FlashTranscript
