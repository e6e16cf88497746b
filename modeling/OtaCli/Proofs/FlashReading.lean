import OtaCli.Machine.Lossy
import OtaCli.Proofs.FlashFrames

/-! # Reading a flash back

The device is not part of this program, but what its packets are for is: the begin packet tells the length of
the file, the data packets are counted, the end packet tells the length again. `readFlash` uses all of that. It
gets the file back from what `Update` sends, and it gets nothing when packets were lost or came twice, so the
counter and the length together are enough to notice that.
-/

namespace OtaCli.Proofs.FlashReading

open Model Model.FileUpdater FlashFrames

/-- The bytes a data packet carries. -/
def payload (p : CommandPacket) : List UInt8 := (p.data.drop 1).take p.size.toNat

/-- The length which a begin or end packet tells. -/
def announced (p : CommandPacket) : ℕ := littleEndian (p.data.take 4)

/-- The packets from the data packet number `k` on: their bytes, and the end packet. -/
def readData (k : ℕ) : List CommandPacket → Option (List UInt8 × CommandPacket)
  | [] => none
  | p :: rest =>
    if p.cmd = Commands.FLASH_END then
      if rest.isEmpty then some ([], p) else none
    else if p.cmd = Commands.FLASH_DATA ∧ p.data.head? = some (UInt8.ofNat k) then
      (readData (k + 1) rest).map fun (bytes, last) => (payload p ++ bytes, last)
    else none

/-- The file that is read, if nothing is amiss. -/
def readFlash : List CommandPacket → Option (List UInt8)
  | [] => none
  | first :: rest =>
    if first.cmd = Commands.FLASH_BEGIN then
      (readData 0 rest).bind fun (bytes, last) =>
        if announced first = bytes.length ∧ announced last = bytes.length then some bytes else none
    else none

section Steps

variable {k : ℕ} {p last : CommandPacket} {rest : List CommandPacket} {bytes : List UInt8}

theorem readData_cons_iff : readData k (p :: rest) = some (bytes, last) ↔
    (p.cmd = Commands.FLASH_END ∧ rest = [] ∧ bytes = [] ∧ last = p) ∨
    (p.cmd = Commands.FLASH_DATA ∧ p.data.head? = some (UInt8.ofNat k) ∧
      ∃ tail, readData (k + 1) rest = some (tail, last) ∧ bytes = payload p ++ tail) := by
  have distinct : Commands.FLASH_END ≠ Commands.FLASH_DATA := by decide
  rw [readData]
  split
  · next ends =>
    rw [ends]
    simp only [distinct, false_and, or_false, true_and, Option.ite_none_right_eq_some, List.isEmpty_iff,
      Option.some.injEq, Prod.mk.injEq]
    constructor
    · rintro ⟨rfl, rfl, rfl⟩
      exact ⟨rfl, rfl, rfl⟩
    · rintro ⟨rfl, rfl, rfl⟩
      exact ⟨rfl, rfl, rfl⟩
  · next continues =>
    simp only [continues, false_and, false_or, Option.ite_none_right_eq_some, Option.map_eq_some_iff,
      Prod.exists, Prod.mk.injEq, and_assoc]
    constructor
    · rintro ⟨data, counter, tail, last', read, rfl, rfl⟩
      exact ⟨data, counter, tail, read, rfl⟩
    · rintro ⟨data, counter, tail, read, rfl⟩
      exact ⟨data, counter, tail, last, read, rfl, rfl⟩

theorem readFlash_cons_iff : readFlash (p :: rest) = some bytes ↔
    p.cmd = Commands.FLASH_BEGIN ∧ announced p = bytes.length ∧
      ∃ last, readData 0 rest = some (bytes, last) ∧ announced last = bytes.length := by
  simp only [readFlash, Option.ite_none_right_eq_some, Option.bind_eq_some_iff, Prod.exists]
  constructor
  · rintro ⟨begins, found, last, read, ⟨first, second⟩, same⟩
    obtain rfl := Option.some.inj same
    exact ⟨begins, first, last, read, second⟩
  · rintro ⟨begins, first, last, read, second⟩
    exact ⟨begins, bytes, last, read, ⟨first, second⟩, rfl⟩

end Steps

section Flash

variable (targetDeviceId : UInt8) {content : List UInt8} {chunks : List (List UInt8)} {last : CommandPacket}

theorem payload_dataPacket (k : ℕ) {chunk : List UInt8} (short : chunk.length ≤ 4) :
    payload (dataPacket targetDeviceId k chunk) = chunk := by
  rw [payload, dataPacket_data targetDeviceId k short, dataPacket_size targetDeviceId k short]
  simp

theorem announced_lengthPacket (cmd : UInt8) {n : ℕ} (bound : n < 2 ^ 32) :
    announced (lengthPacket cmd targetDeviceId n) = n := by
  rw [announced, lengthPacket_data, List.take_append_of_le_length (by simp [getBytes]),
    List.take_of_length_le (by simp [getBytes]), littleEndian_getBytes bound]

theorem dataPackets_cons (k : ℕ) (chunk : List UInt8) :
    dataPackets targetDeviceId k (chunk :: chunks) =
      dataPacket targetDeviceId k chunk :: dataPackets targetDeviceId (k + 1) chunks := rfl

/-- The data packets of a flash are read one by one. -/
private theorem readData_dataPackets (k : ℕ) (short : ∀ chunk ∈ chunks, chunk.length ≤ 4)
    (ends : last.cmd = Commands.FLASH_END) :
    readData k (dataPackets targetDeviceId k chunks ++ [last]) = some (chunks.flatten, last) := by
  induction chunks generalizing k with
  | nil => exact readData_cons_iff.mpr (.inl ⟨ends, rfl, rfl, rfl⟩)
  | cons chunk chunks ih =>
    obtain ⟨bound, bounds⟩ := List.forall_mem_cons.mp short
    rw [dataPackets_cons, List.cons_append]
    refine readData_cons_iff.mpr (.inr ⟨rfl, ?_, chunks.flatten, ih (k + 1) bounds, ?_⟩)
    · simp [dataPacket_data targetDeviceId k bound]
    · rw [payload_dataPacket targetDeviceId k bound, List.flatten_cons]

/-- Where data packets may be lost or repeated, fewer bytes are read unless all packets have come, each once. -/
private theorem readData_lossy (k c : ℕ) {packets : List CommandPacket} {bytes : List UInt8} {found : CommandPacket}
    (full : ∀ chunk ∈ chunks, chunk.length = 4) (ends : last.cmd = Commands.FLASH_END)
    (lossy : Lossy packets (dataPackets targetDeviceId k chunks ++ [last]))
    (read : readData c packets = some (bytes, found)) :
    found = last ∧ bytes.length ≤ 4 * chunks.length ∧
      (bytes.length = 4 * chunks.length → packets = dataPackets targetDeviceId k chunks ++ [last]) := by
  have distinct : Commands.FLASH_END ≠ Commands.FLASH_DATA := by decide
  induction chunks generalizing k c packets bytes with
  | nil =>
    cases packets with
    | nil => cases read
    | cons p rest =>
      obtain ⟨rfl, -⟩ | lost := lossy.cons_cases
      · obtain ⟨-, rfl, rfl, rfl⟩ | ⟨data, -⟩ := readData_cons_iff.mp read
        · exact ⟨rfl, Nat.le_refl _, fun _ => rfl⟩
        · exact absurd (ends.symm.trans data) distinct
      · cases lost.eq_nil
  | cons chunk chunks ih =>
    obtain ⟨four, fulls⟩ := List.forall_mem_cons.mp full
    cases packets with
    | nil => cases read
    | cons p rest =>
      rw [dataPackets_cons, List.cons_append] at lossy
      obtain ⟨rfl, more⟩ | lost := lossy.cons_cases
      · obtain ⟨data, -⟩ | ⟨-, counter, tail, later, rfl⟩ := readData_cons_iff.mp read
        · exact absurd data.symm distinct
        rw [dataPacket_data targetDeviceId k four.le, List.head?_cons, Option.some.injEq] at counter
        -- the counter has moved on, so the packet is not taken a second time
        have once : ∀ again, rest ≠ dataPacket targetDeviceId k chunk :: again := by
          rintro again rfl
          obtain ⟨data, -⟩ | ⟨-, next, -⟩ := readData_cons_iff.mp later
          · exact absurd data.symm distinct
          · rw [dataPacket_data targetDeviceId k four.le, List.head?_cons, Option.some.injEq, counter] at next
            have same := congrArg UInt8.toNat next
            simp only [UInt8.toNat_ofNat'] at same
            omega
        obtain ⟨same, bound, whole⟩ := ih (k + 1) (c + 1) fulls (more.tail once) later
        have size := congrArg List.length (payload_dataPacket targetDeviceId k four.le)
        rw [List.length_append, size, four, List.length_cons]
        refine ⟨same, by omega, fun all => ?_⟩
        rw [whole (by omega), dataPackets_cons, List.cons_append]
      · obtain ⟨same, bound, -⟩ := ih (k + 1) c fulls lost read
        rw [List.length_cons]
        exact ⟨same, by omega, fun all => by omega⟩

/-- What is read ends with an end packet. -/
private theorem end_of_readData (k : ℕ) {packets : List CommandPacket} {bytes : List UInt8}
    (read : readData k packets = some (bytes, last)) : last ∈ packets ∧ last.cmd = Commands.FLASH_END := by
  induction packets generalizing k bytes with
  | nil => cases read
  | cons p rest ih =>
    obtain ⟨ends, -, -, rfl⟩ | ⟨-, -, tail, later, -⟩ := readData_cons_iff.mp read
    · exact ⟨List.mem_cons_self, ends⟩
    · exact ⟨List.mem_cons_of_mem _ (ih (k + 1) later).1, (ih (k + 1) later).2⟩

/-- The packets of a file of full chunks. -/
theorem commands_of_dvd (multiple : 4 ∣ content.length) : (flashTranscript content targetDeviceId).commands =
    lengthPacket Commands.FLASH_BEGIN targetDeviceId content.length ::
      (dataPackets targetDeviceId 0 (content.toChunks 4) ++
        [lengthPacket Commands.FLASH_END targetDeviceId content.length]) := by
  rw [flashTranscript, if_pos multiple, FlashTranscript.fullChunks_of_dvd multiple]

theorem length_of_mem_chunks (multiple : 4 ∣ content.length) :
    ∀ chunk ∈ content.toChunks 4, chunk.length = 4 := by
  rw [← FlashTranscript.fullChunks_of_dvd multiple]
  exact FlashTranscript.length_of_mem_fullChunks content

variable (readable : content.length ≤ maxLength)
include readable

/-- What `Update` sends for a file of full chunks reads as the file. -/
theorem readFlash_commands (multiple : 4 ∣ content.length) :
    readFlash (flashTranscript content targetDeviceId).commands = some content := by
  have bound : content.length < 2 ^ 32 := readable.trans_lt (by decide)
  have short : ∀ chunk ∈ content.toChunks 4, chunk.length ≤ 4 :=
    fun chunk member => (length_of_mem_chunks multiple chunk member).le
  rw [commands_of_dvd targetDeviceId multiple]
  refine readFlash_cons_iff.mpr ⟨rfl, announced_lengthPacket targetDeviceId _ bound,
    lengthPacket Commands.FLASH_END targetDeviceId content.length, ?_,
    announced_lengthPacket targetDeviceId _ bound⟩
  rw [readData_dataPackets targetDeviceId 0 short rfl, List.flatten_toChunks (by decide)]

/-- What reads as a file at all has come whole. -/
private theorem eq_of_readFlash {packets : List CommandPacket} {bytes : List UInt8}
    (lossy : Lossy packets (flashTranscript content targetDeviceId).commands)
    (read : readFlash packets = some bytes) :
    4 ∣ content.length ∧ packets = (flashTranscript content targetDeviceId).commands := by
  have bound : content.length < 2 ^ 32 := readable.trans_lt (by decide)
  cases packets with
  | nil => cases read
  | cons p rest =>
    obtain ⟨begins, told, last, data, -⟩ := readFlash_cons_iff.mp read
    obtain ⟨member, ends⟩ := end_of_readData 0 data
    have multiple : 4 ∣ content.length := by
      by_contra partly
      -- without an end packet there is none to be read
      have sent := lossy.mem (List.mem_cons_of_mem _ member)
      simp only [flashTranscript, partly, if_false, List.append_nil, List.mem_cons] at sent
      obtain rfl | inData := sent
      · cases ends
      · obtain ⟨k, chunk, -, rfl⟩ := mem_dataPackets _ inData
        cases ends
    refine ⟨multiple, ?_⟩
    rw [commands_of_dvd targetDeviceId multiple] at lossy ⊢
    obtain ⟨rfl, more⟩ | lost := lossy.cons_cases
    · have once : ∀ again, rest ≠ lengthPacket Commands.FLASH_BEGIN targetDeviceId content.length :: again := by
        rintro again rfl
        obtain ⟨other, -⟩ | ⟨other, -⟩ := readData_cons_iff.mp data <;> cases other
      obtain ⟨-, -, whole⟩ :=
        readData_lossy targetDeviceId 0 0 (length_of_mem_chunks multiple) rfl (more.tail once) data
      rw [announced_lengthPacket _ _ bound] at told
      rw [whole]
      rw [← told, List.length_toChunks (by decide)]
      omega
    · obtain inData | atEnd := List.mem_append.mp (lost.mem List.mem_cons_self)
      · obtain ⟨k, chunk, -, rfl⟩ := mem_dataPackets _ inData
        cases begins
      · rw [List.mem_singleton.mp atEnd] at begins
        cases begins

omit readable

/-- A device that checks the counter and both lengths gets the file from the packets of a flash, and takes
nothing for a file when any of them were lost or came more than once: whatever subset of the packets arrives
and however often, in order, it reads as a file only if it is the whole flash, each packet once. -/
theorem loss_noticed (content : List UInt8) (targetDeviceId : UInt8) (readable : content.length ≤ maxLength) :
    (4 ∣ content.length → readFlash (flashTranscript content targetDeviceId).commands = some content) ∧
    ∀ packets bytes, Lossy packets (flashTranscript content targetDeviceId).commands →
      readFlash packets = some bytes →
        4 ∣ content.length ∧ packets = (flashTranscript content targetDeviceId).commands ∧ bytes = content := by
  refine ⟨readFlash_commands targetDeviceId readable, fun packets bytes lossy read => ?_⟩
  obtain ⟨multiple, rfl⟩ := eq_of_readFlash targetDeviceId readable lossy read
  rw [readFlash_commands targetDeviceId readable multiple, Option.some.injEq] at read
  exact ⟨multiple, rfl, read.symm⟩

theorem loss_noticed_of_eight_bytes :
    readFlash (flashTranscript [1, 2, 3, 4, 5, 6, 7, 8] 9).commands = some [1, 2, 3, 4, 5, 6, 7, 8] :=
  (loss_noticed [1, 2, 3, 4, 5, 6, 7, 8] 9 (by decide)).1 (by decide)

end Flash

section Frames

variable {content other : List UInt8} {target target' : UInt8}

/-- The frames of a flash determine its packets. -/
private theorem commands_of_frames (same : (flashTranscript content target).commands.map (·.mappedMsg) =
    (flashTranscript other target').commands.map (·.mappedMsg)) :
    (flashTranscript content target).commands = (flashTranscript other target').commands := by
  have parsed (bytes : List UInt8) (id : UInt8) :
      ((flashTranscript bytes id).commands.map (·.mappedMsg)).map Packet.ofCanMsg =
        (flashTranscript bytes id).commands.map Except.ok := by
    rw [List.map_map]
    exact List.map_congr_left fun p member => (isImage_of_mem_flashTranscript id bytes p member).parses
  apply List.map_injective_iff.mpr fun _ _ => Except.ok.inj
  rw [← parsed, ← parsed, same]

private theorem map_payload_dataPackets (k : ℕ) {chunks : List (List UInt8)}
    (short : ∀ chunk ∈ chunks, chunk.length ≤ 4) :
    (dataPackets target k chunks).map payload = chunks := by
  induction chunks generalizing k with
  | nil => rfl
  | cons chunk chunks ih =>
    obtain ⟨bound, bounds⟩ := List.forall_mem_cons.mp short
    rw [dataPackets_cons, List.map_cons, payload_dataPacket target k bound, ih (k + 1) bounds]

private theorem flatten_fullChunks (content : List UInt8) :
    (fullChunks content).flatten = content.take (4 * (content.length / 4)) :=
  List.flatten_toChunks (by decide) _

/-- Two flashes send the same frames exactly if they are for the same target and their files have the same
length and the same bytes up to the last full chunk: what is left of a file after it is on no wire. -/
theorem frames_eq_iff (content other : List UInt8) (target target' : UInt8)
    (readable : content.length ≤ maxLength) (readable' : other.length ≤ maxLength) :
    (flashTranscript content target).commands.map (·.mappedMsg) =
        (flashTranscript other target').commands.map (·.mappedMsg) ↔
      target = target' ∧ content.length = other.length ∧
        content.take (4 * (content.length / 4)) = other.take (4 * (other.length / 4)) := by
  constructor
  · intro same
    have commands := commands_of_frames same
    simp only [flashTranscript, List.cons.injEq] at commands
    obtain ⟨first, rest⟩ := commands
    have ids : target = target' := congrArg Packet.deviceId first
    have lengths := congrArg announced first
    rw [announced_lengthPacket _ _ (readable.trans_lt (by decide)),
      announced_lengthPacket _ _ (readable'.trans_lt (by decide))] at lengths
    subst ids
    rw [lengths, List.append_left_inj] at rest
    have short (bytes : List UInt8) : ∀ chunk ∈ fullChunks bytes, chunk.length ≤ 4 :=
      fun chunk member => (FlashTranscript.length_of_mem_fullChunks bytes chunk member).le
    have chunks := congrArg (List.map payload) rest
    rw [map_payload_dataPackets 0 (short _), map_payload_dataPackets 0 (short _)] at chunks
    exact ⟨rfl, lengths, by rw [← flatten_fullChunks, chunks, flatten_fullChunks]⟩
  · rintro ⟨rfl, lengths, bytes⟩
    have chunks : fullChunks content = fullChunks other := congrArg (List.toChunks 4) bytes
    simp only [flashTranscript, lengths, chunks]

theorem frames_eq_iff_of_short_chunk :
    (flashTranscript [1, 2, 3, 4, 5] 9).commands.map (·.mappedMsg) =
      (flashTranscript [1, 2, 3, 4, 6] 9).commands.map (·.mappedMsg) :=
  (frames_eq_iff [1, 2, 3, 4, 5] [1, 2, 3, 4, 6] 9 9 (by decide) (by decide)).mpr (by decide)

end Frames

end OtaCli.Proofs.FlashReading
