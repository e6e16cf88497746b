import OtaCli.Model.PacketHistory

/-! # The packet codec and the command packet's cached image

Both classes implement the one format, so the codec laws hold for each kind. For command packets
the cached wire image stays in agreement through any history of assignments, throwing ones
included: every reachable object is the image of its fields.
-/

namespace OtaCli.Proofs.PacketCodec

open Model Model.PacketFields

private theorem image_of_received {kind : PacketKind} (msg : CanMsg) (size : msg.data.length = 8) :
    ∃ p : Packet kind, Packet.ofCanMsg msg = .ok p ∧ p.mappedMsg.data = msg.data := by
  obtain ⟨bytes, received⟩ := exists_vector size
  refine ⟨(wireEquiv.symm bytes).val.toPacket kind, Packet.ofCanMsg_eq msg bytes received.symm, ?_⟩
  have image : (wireEquiv.symm bytes).val.wire = bytes := wireEquiv.apply_symm_apply bytes
  simp only [toPacket, image, received]

/-- Building from fields that fit, then parsing the image, gives the very same object. -/
private theorem parse_of_built (kind : PacketKind) (cmd crc size deviceId : UInt8) (data : List UInt8)
    (crcFits : crc < 32) (sizeFits : size < 8) (full : data.length = 5) :
    ∃ p : Packet kind, Packet.ofFields kind cmd crc size deviceId (some data) = .ok p ∧
      Packet.ofCanMsg p.mappedMsg = .ok p ∧ p.cmd = cmd ∧ p.crc = crc ∧ p.size = size ∧
        p.deviceId = deviceId ∧ p.data = data := by
  obtain ⟨value, rfl⟩ := exists_vector full
  let f : PacketFields := ⟨cmd, crc, size, deviceId, value⟩
  have built := Packet.ofFields_eq kind cmd crc size deviceId value
  have parsed : Packet.ofCanMsg (f.toPacket kind).mappedMsg = .ok (f.toPacket kind) :=
    Packet.ofCanMsg_toPacket ⟨crcFits, sizeFits⟩
  exact ⟨f.toPacket kind, built, parsed, rfl, rfl, rfl, rfl, rfl⟩

private theorem image_eq_iff {kind : PacketKind} (cmd crc size deviceId cmd' crc' size' deviceId' : UInt8)
    (data data' : List UInt8) (full : data.length = 5) (full' : data'.length = 5) :
    ∃ p q : Packet kind, Packet.ofFields kind cmd crc size deviceId (some data) = .ok p ∧
      Packet.ofFields kind cmd' crc' size' deviceId' (some data') = .ok q ∧
        (p.mappedMsg.data = q.mappedMsg.data ↔
          cmd = cmd' ∧ deviceId = deviceId' ∧ data = data' ∧
            crc.toNat % 32 = crc'.toNat % 32 ∧ size.toNat % 8 = size'.toNat % 8) := by
  obtain ⟨value, rfl⟩ := exists_vector full
  obtain ⟨value', rfl⟩ := exists_vector full'
  refine ⟨_, _, Packet.ofFields_eq kind cmd crc size deviceId value,
    Packet.ofFields_eq kind cmd' crc' size' deviceId' value', ?_⟩
  simp only [toPacket, Vector.toList_inj, wire_eq_iff]
  tauto

/-- The codec of either class is a bijection between its format and the eight-byte frames: parsing
loses nothing, fitting fields survive the wire, and the image determines the fields up to the bits
which the wire does not carry. -/
theorem codec_bijection (kind : PacketKind) :
    (∀ msg : CanMsg, msg.data.length = 8 →
      ∃ p : Packet kind, Packet.ofCanMsg msg = .ok p ∧ p.mappedMsg.data = msg.data) ∧
    (∀ (cmd crc size deviceId : UInt8) (data : List UInt8),
      crc < 32 → size < 8 → data.length = 5 →
      ∃ p q : Packet kind, Packet.ofFields kind cmd crc size deviceId (some data) = .ok p ∧
        Packet.ofCanMsg p.mappedMsg = .ok q ∧ q.cmd = cmd ∧ q.crc = crc ∧ q.size = size ∧
          q.deviceId = deviceId ∧ q.data = data) ∧
    (∀ (cmd crc size deviceId cmd' crc' size' deviceId' : UInt8) (data data' : List UInt8),
      data.length = 5 → data'.length = 5 →
      ∃ p q : Packet kind, Packet.ofFields kind cmd crc size deviceId (some data) = .ok p ∧
        Packet.ofFields kind cmd' crc' size' deviceId' (some data') = .ok q ∧
          (p.mappedMsg.data = q.mappedMsg.data ↔
            cmd = cmd' ∧ deviceId = deviceId' ∧ data = data' ∧
              crc.toNat % 32 = crc'.toNat % 32 ∧ size.toNat % 8 = size'.toNat % 8)) := by
  refine ⟨image_of_received, ?_, image_eq_iff⟩
  intro cmd crc size deviceId data crcFits sizeFits full
  obtain ⟨p, built, parsed, fields⟩ :=
    parse_of_built kind cmd crc size deviceId data crcFits sizeFits full
  exact ⟨p, p, built, parsed, fields⟩

theorem codec_bijection_at_frame :
    ∃ p : ResponsePacket,
      Packet.ofCanMsg { data := [0xfd, 0xcd, 0xdd, 0xf1, 0xf2, 0xf3, 0xf4, 0xf5] } = .ok p ∧
        p.mappedMsg.data = [0xfd, 0xcd, 0xdd, 0xf1, 0xf2, 0xf3, 0xf4, 0xf5] :=
  (codec_bijection .response).1 { data := [0xfd, 0xcd, 0xdd, 0xf1, 0xf2, 0xf3, 0xf4, 0xf5] } rfl

/-- The representation invariant of a command packet, with failures that change nothing: whichever constructor it
comes from, and whatever was assigned to it since, exceptions being caught. -/
theorem command_invariant {origin : Origin} {p q : CommandPacket} {history : List Assignment}
    (built : origin.build .command = .ok p) (run : (Packet.caught .command).Run p history q) :
    q.data.length = 5 ∧ q.mappedMsg.id = 0x7d1 ∧ q.mappedMsg.dlc = 8 ∧ q.mappedMsg.flags = 0 ∧
      q.mappedMsg.data.length = 8 ∧
      q.mappedMsg.data =
        q.cmd :: UInt8.ofNat (q.crc.toNat % 32 + 32 * (q.size.toNat % 8)) :: q.deviceId :: q.data ∧
      ∀ (a : Assignment) (e : Exception) (after : CommandPacket),
        CommandPacket.assign a q = .error e after → after = q := by
  obtain ⟨f, rfl⟩ := CommandPacket.exists_fields_of_build built
  have command : PacketKind.command = .response → ∀ a ∈ history, a.Full := nofun
  obtain rfl := Packet.fields_of_caught_run command run
  generalize history.foldl PacketFields.caught f = g
  refine ⟨by simp [toPacket], rfl, rfl, rfl, by simp [toPacket], ?_, ?_⟩
  · rw [← packCrcSize_toNat, UInt8.ofNat_toNat]
    exact wire_toList g
  · intro a e after threw
    cases faulty : CommandPacket.fault a with
    | none =>
      rw [CommandPacket.assign_toPacket faulty] at threw
      cases threw
    | some raised =>
      rw [CommandPacket.assign_of_fault faulty] at threw
      cases threw
      rfl

/-- A history with an assignment in it that throws. -/
theorem command_invariant_after_failed_data :
    ∃ q : CommandPacket, (Packet.caught .command).Run (blank.toPacket .command)
        [.cmd 2, .data (some [1, 2, 3, 4, 5, 6]), .crc 33] q ∧
      q.data.length = 5 ∧ q.mappedMsg.data =
        q.cmd :: UInt8.ofNat (q.crc.toNat % 32 + 32 * (q.size.toNat % 8)) :: q.deviceId :: q.data := by
  have created : Origin.create.build .command = .ok (blank.toPacket .command) := Packet.create_eq
  obtain ⟨q, run⟩ := Packet.exists_caught_run (blank.toPacket .command)
    [.cmd 2, .data (some [1, 2, 3, 4, 5, 6]), .crc 33]
  obtain ⟨length, -, -, -, -, image, -⟩ := command_invariant created run
  exact ⟨q, run, length, image⟩

end OtaCli.Proofs.PacketCodec
