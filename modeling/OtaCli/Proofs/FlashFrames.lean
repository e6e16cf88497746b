import OtaCli.Proofs.FlashTranscript
import Mathlib.Data.Nat.Digits.Defs

/-! # Reading the frames of a flash

What a device finds in the packets which `Update` builds: every one survives the wire, the length
packets carry the file's length as a little-endian number, and the data packets carry their counter
and the bytes of their chunk.
-/

namespace OtaCli.Proofs.FlashFrames

open Model Model.FileUpdater

/-- The number whose little-endian bytes these are. -/
def littleEndian (bytes : List UInt8) : ℕ := Nat.ofDigits 256 (bytes.map UInt8.toNat)

/-- The payload bytes `1..Size` of data packets, put together. -/
def image (packets : List CommandPacket) : List UInt8 :=
  packets.flatMap fun p => (p.data.drop 1).take p.size.toNat

theorem littleEndian_getBytes {n : ℕ} (bound : n < 2 ^ 32) :
    littleEndian (getBytes (Int32.ofNat n)) = n := by
  have bits : (Int32.ofNat n).toUInt32.toNat = n := UInt32.toNat_ofNat_of_lt' bound
  simp only [littleEndian, getBytes, List.map_cons, List.map_nil, UInt32.toNat_toUInt8,
    UInt32.toNat_shiftRight, UInt32.reduceToNat, Nat.reduceMod, bits, Nat.shiftRight_eq_div_pow,
    Nat.ofDigits_cons, Nat.ofDigits_nil, Nat.reducePow]
  omega

variable (targetDeviceId : UInt8)

/-- A built packet stores the given bytes and leaves the rest of the array zero. -/
theorem packetFields_data (cmd size : UInt8) {data : List UInt8} (short : data.length ≤ 5) :
    (packetFields cmd size targetDeviceId data).data.toList =
      data ++ List.replicate (5 - data.length) 0 := by
  rw [packetFields, PacketFields.storeData_toList _ short, List.overwrite, Vector.toList_replicate]
  simp [- List.reduceReplicate]

@[simp] theorem lengthPacket_cmd (cmd : UInt8) (n : ℕ) : (lengthPacket cmd targetDeviceId n).cmd = cmd :=
  rfl

@[simp] theorem dataPacket_cmd (k : ℕ) (chunk : List UInt8) :
    (dataPacket targetDeviceId k chunk).cmd = Commands.FLASH_DATA := rfl

theorem lengthPacket_data (cmd : UInt8) (n : ℕ) :
    (lengthPacket cmd targetDeviceId n).data = getBytes (Int32.ofNat n) ++ [0] := by
  have four : (getBytes (Int32.ofNat n)).length ≤ 5 := by simp [getBytes]
  exact packetFields_data targetDeviceId cmd 4 four

theorem dataPacket_data (k : ℕ) {chunk : List UInt8} (short : chunk.length ≤ 4) :
    (dataPacket targetDeviceId k chunk).data =
      UInt8.ofNat k :: (chunk ++ List.replicate (4 - chunk.length) 0) := by
  have five : (UInt8.ofNat k :: chunk).length ≤ 5 := Nat.succ_le_succ short
  have stored := packetFields_data targetDeviceId Commands.FLASH_DATA chunk.length.toUInt8 five
  have room : 5 - (UInt8.ofNat k :: chunk).length = 4 - chunk.length := by
    rw [List.length_cons]
    omega
  rwa [room] at stored

theorem dataPacket_size (k : ℕ) {chunk : List UInt8} (short : chunk.length ≤ 4) :
    (dataPacket targetDeviceId k chunk).size.toNat = chunk.length :=
  UInt8.toNat_ofNat_of_lt' (Nat.lt_of_le_of_lt short (by decide))

/-- The packets built for a flash are images of fields that fit, addressed to the target. -/
def IsImage (p : CommandPacket) : Prop :=
  ∃ f : PacketFields, f.Fits ∧ f.deviceId = targetDeviceId ∧ p = f.toPacket .command

private theorem lengthPacket_isImage (cmd : UInt8) (n : ℕ) :
    IsImage targetDeviceId (lengthPacket cmd targetDeviceId n) :=
  ⟨_, ⟨(by decide : (0 : UInt8) < 32), (by decide : (4 : UInt8) < 8)⟩, rfl, rfl⟩

private theorem dataPacket_isImage (k : ℕ) {chunk : List UInt8} (short : chunk.length ≤ 4) :
    IsImage targetDeviceId (dataPacket targetDeviceId k chunk) := by
  refine ⟨_, ⟨(by decide : (0 : UInt8) < 32), ?_⟩, rfl, rfl⟩
  rw [UInt8.lt_iff_toNat_lt]
  exact (dataPacket_size targetDeviceId k short).trans_lt (Nat.lt_of_le_of_lt short (by decide))

theorem IsImage.parses {p : CommandPacket} (built : IsImage targetDeviceId p) :
    Packet.ofCanMsg p.mappedMsg = .ok p := by
  obtain ⟨f, fits, -, rfl⟩ := built
  exact Packet.ofCanMsg_toPacket fits

section DataPackets

@[simp] theorem length_dataPackets (k : ℕ) (chunks : List (List UInt8)) :
    (dataPackets targetDeviceId k chunks).length = chunks.length := by
  simp [dataPackets]

theorem getElem?_dataPackets (k i : ℕ) (chunks : List (List UInt8)) :
    (dataPackets targetDeviceId k chunks)[i]? =
      chunks[i]?.map (dataPacket targetDeviceId (k + i)) := by
  simp [dataPackets, List.getElem?_zipIdx, Function.comp_def]

theorem mem_dataPackets {p : CommandPacket} {k : ℕ} {chunks : List (List UInt8)}
    (member : p ∈ dataPackets targetDeviceId k chunks) :
    ∃ i, ∃ chunk ∈ chunks, p = dataPacket targetDeviceId i chunk := by
  obtain ⟨⟨chunk, i⟩, numbered, rfl⟩ := List.mem_map.mp member
  exact ⟨i, chunk, List.fst_mem_of_mem_zipIdx numbered, rfl⟩

/-- The payloads of consecutive chunks are the bytes of the chunks. -/
theorem image_dataPackets (k : ℕ) {chunks : List (List UInt8)}
    (short : ∀ chunk ∈ chunks, chunk.length ≤ 4) :
    image (dataPackets targetDeviceId k chunks) = chunks.flatten := by
  induction chunks generalizing k with
  | nil => rfl
  | cons chunk chunks ih =>
    have bound := short chunk List.mem_cons_self
    have rest := ih (k + 1) fun c member => short c (List.mem_cons_of_mem _ member)
    have head : ((dataPacket targetDeviceId k chunk).data.drop 1).take
        (dataPacket targetDeviceId k chunk).size.toNat = chunk := by
      rw [dataPacket_data targetDeviceId k bound, dataPacket_size targetDeviceId k bound]
      simp
    simp only [image, dataPackets, List.zipIdx_cons, List.map_cons, List.flatMap_cons, head,
      List.flatten_cons] at rest ⊢
    rw [rest]

private theorem sum_sizes_dataPackets (k : ℕ) {chunks : List (List UInt8)}
    (short : ∀ chunk ∈ chunks, chunk.length ≤ 4) :
    ((dataPackets targetDeviceId k chunks).map fun p => p.size.toNat).sum = chunks.flatten.length := by
  rw [List.length_flatten]
  congr 1
  apply List.ext_getElem?
  intro i
  simp only [List.getElem?_map, getElem?_dataPackets, Option.map_map]
  cases chunk : chunks[i]? with
  | none => rfl
  | some c => simp [dataPacket_size targetDeviceId _ (short c (List.mem_of_getElem? chunk))]

end DataPackets

/-- The frames parse to a begin packet, numbered data packets and an end packet, all for the target,
which carry the whole file and its length. -/
structure CarriesImage (content : List UInt8) (frames : List CanMsg) (first : CommandPacket)
    (data : List CommandPacket) (last : CommandPacket) : Prop where
  parsed : frames.map Packet.ofCanMsg = (first :: (data ++ [last])).map Except.ok
  shape : ∀ frame ∈ frames, frame.id = 0x7d1 ∧ frame.dlc = 8 ∧ frame.data.length = 8
  target : ∀ p ∈ first :: (data ++ [last]), p.deviceId = targetDeviceId
  begins : first.cmd = Commands.FLASH_BEGIN
  writes : ∀ p ∈ data, p.cmd = Commands.FLASH_DATA
  ends : last.cmd = Commands.FLASH_END
  count : data.length = (content.length + 3) / 4
  counter : ∀ k p, data[k]? = some p → p.data.head?.map UInt8.toNat = some (k % 256)
  payload : image data = content
  lengths : ∀ p ∈ [first, last], littleEndian (p.data.take 4) = content.length ∧ p.data[4]? = some 0
  sizes : (data.map fun p => p.size.toNat).sum = content.length

theorem isImage_of_mem_flashTranscript (content : List UInt8) :
    ∀ p ∈ (flashTranscript content targetDeviceId).commands, IsImage targetDeviceId p := by
  intro p member
  simp only [flashTranscript, List.mem_cons, List.mem_append] at member
  obtain rfl | inData | atEnd := member
  · exact lengthPacket_isImage ..
  · obtain ⟨k, chunk, inChunks, rfl⟩ := mem_dataPackets _ inData
    exact dataPacket_isImage _ _ (FlashTranscript.length_of_mem_fullChunks content chunk inChunks).le
  · split at atEnd
    · rw [List.mem_singleton.mp atEnd]
      exact lengthPacket_isImage ..
    · cases atEnd

theorem flashTranscript_carriesImage {content : List UInt8} (multiple : 4 ∣ content.length)
    (readable : content.length ≤ maxLength) :
    CarriesImage targetDeviceId content
      ((flashTranscript content targetDeviceId).commands.map (·.mappedMsg))
      (lengthPacket Commands.FLASH_BEGIN targetDeviceId content.length)
      (dataPackets targetDeviceId 0 (fullChunks content))
      (lengthPacket Commands.FLASH_END targetDeviceId content.length) := by
  have whole := FlashTranscript.fullChunks_of_dvd multiple
  have short : ∀ chunk ∈ fullChunks content, chunk.length ≤ 4 := fun chunk member =>
    (FlashTranscript.length_of_mem_fullChunks content chunk member).le
  have commands : (flashTranscript content targetDeviceId).commands =
      lengthPacket Commands.FLASH_BEGIN targetDeviceId content.length ::
        (dataPackets targetDeviceId 0 (fullChunks content) ++
          [lengthPacket Commands.FLASH_END targetDeviceId content.length]) := by
    rw [flashTranscript, if_pos multiple]
  have flattened : (fullChunks content).flatten = content := by
    rw [whole, List.flatten_toChunks (by decide)]
  have bound : content.length < 2 ^ 32 := readable.trans_lt (by decide)
  have images := isImage_of_mem_flashTranscript targetDeviceId content
  refine ⟨?_, ?_, ?_, rfl, ?_, rfl, ?_, ?_, ?_, ?_, ?_⟩
  · rw [← commands, List.map_map]
    exact List.map_congr_left fun p member => (images p member).parses
  · rw [List.forall_mem_map]
    intro p member
    obtain ⟨f, -, -, rfl⟩ := images p member
    exact ⟨rfl, rfl, by simp [PacketFields.toPacket]⟩
  · rw [← commands]
    intro p member
    obtain ⟨f, -, same, rfl⟩ := images p member
    exact same
  · intro p member
    obtain ⟨k, chunk, -, rfl⟩ := mem_dataPackets _ member
    rfl
  · rw [length_dataPackets, whole, List.length_toChunks (by decide)]
    rfl
  · intro k p member
    rw [getElem?_dataPackets, Option.map_eq_some_iff] at member
    obtain ⟨chunk, inChunks, rfl⟩ := member
    rw [dataPacket_data _ _ (short chunk (List.mem_of_getElem? inChunks))]
    simp
  · rw [image_dataPackets _ _ short, flattened]
  · have value (cmd : UInt8) :
        littleEndian ((lengthPacket cmd targetDeviceId content.length).data.take 4) = content.length ∧
          (lengthPacket cmd targetDeviceId content.length).data[4]? = some 0 := by
      rw [lengthPacket_data, List.take_append_of_le_length (by simp [getBytes]),
        List.take_of_length_le (by simp [getBytes]), littleEndian_getBytes bound]
      exact ⟨rfl, by simp [getBytes]⟩
    simpa using And.intro (value Commands.FLASH_BEGIN) (value Commands.FLASH_END)
  · rw [sum_sizes_dataPackets _ _ short, flattened]

end OtaCli.Proofs.FlashFrames
