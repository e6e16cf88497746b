import OtaCli.Model.PacketHistory

/-! # What the image keeps of the fields

Both classes hold whole bytes and send five bits of the checksum and three of the size. Parsing the
image of any packet therefore gives back these two fields modulo 32 and modulo 8, and the others as
they are.
-/

namespace OtaCli.Proofs.FieldTruncation

open Model Model.PacketFields LabeledMachine

variable {kind : PacketKind} {p q : Packet kind}

/-- The image shows the fields and the first five bytes of the array. -/
structure Synced (p : Packet kind) : Prop where
  enough : 5 ≤ p.data.length
  image : p.mappedMsg.data = p.cmd :: packCrcSize p.crc p.size :: p.deviceId :: p.data.take 5

theorem Synced.mapped (synced : Synced p) : p.mappedMsg.data.length = 8 := by
  have enough := synced.enough
  rw [synced.image]
  simp only [List.length_cons, List.length_take]
  omega

private theorem synced_toPacket (f : PacketFields) : Synced (f.toPacket kind) := by
  refine ⟨by simp [toPacket], ?_⟩
  have whole : f.data.toList.take 5 = f.data.toList := List.take_of_length_le (by simp)
  simpa only [toPacket, whole] using wire_toList f

/-- Where recompiling returns, the image shows the fields. -/
theorem synced_of_recompileMsg (mapped : p.mappedMsg.data.length = 8)
    (returned : Packet.recompileMsg p = .ok () q) : Synced q := by
  rcases Nat.lt_or_ge p.data.length 5 with short | enough
  · obtain ⟨after, thrown, -⟩ := Packet.recompileMsg_of_short p short mapped
    rw [thrown] at returned
    cases returned
  · rw [Packet.recompileMsg_of_le p enough mapped] at returned
    cases returned
    exact ⟨enough, rfl⟩

theorem Synced.assignField (synced : Synced p) {store : Packet kind → Packet kind}
    (sameMapped : (store p).mappedMsg = p.mappedMsg)
    (returned : Packet.assignField store p = .ok () q) : Synced q := by
  refine synced_of_recompileMsg (p := store p) (by rw [sameMapped]; exact synced.mapped) ?_
  simpa only [Packet.assignField, Method.bind_apply, Method.modify_apply] using returned

theorem Synced.setData_command {p q : CommandPacket} (synced : Synced p) {value : Option (List UInt8)}
    (returned : CommandPacket.setData value p = .ok () q) : Synced q := by
  cases faulty : CommandPacket.fault (.data value) with
  | some e =>
    have thrown := CommandPacket.assign_of_fault faulty p
    rw [CommandPacket.assign, returned] at thrown
    cases thrown
  | none =>
    obtain ⟨array, rfl, short⟩ := CommandPacket.fault_data_eq_none_iff.mp faulty
    have copied := CommandPacket.copyDataBytes_eq array array.length 0 p (by omega)
      (short.trans synced.enough)
    simp only [CommandPacket.setData, Method.bind_apply, copied, gt_iff_lt, Nat.not_lt.mpr short,
      ↓reduceIte] at returned
    exact synced_of_recompileMsg (p := p.withData (p.data.overwrite 0 (array.drop 0))) synced.mapped
      returned

theorem Synced.setData_response {p q : ResponsePacket} (synced : Synced p)
    {value : Option (List UInt8)} (returned : ResponsePacket.setData value p = .ok () q) :
    Synced q := by
  cases faulty : CommandPacket.fault (.data value) with
  | some e =>
    have thrown := ResponsePacket.assign_of_fault faulty p
    rw [ResponsePacket.assign, returned] at thrown
    cases thrown
  | none =>
    obtain ⟨array, rfl, short⟩ := CommandPacket.fault_data_eq_none_iff.mp faulty
    simp only [ResponsePacket.setData, Method.bind_apply, gt_iff_lt, Nat.not_lt.mpr short, ↓reduceIte,
      Method.modify_apply] at returned
    exact synced_of_recompileMsg (p := p.withData array) synced.mapped returned

/-- An assignment that returns leaves the image showing the fields. -/
theorem Synced.assign (synced : Synced p) {a : Assignment}
    (returned : Packet.assign kind a p = .ok () q) : Synced q := by
  cases kind with
  | command =>
    cases a with
    | data value => exact synced.setData_command returned
    | _ => exact synced.assignField rfl returned
  | response =>
    cases a with
    | data value => exact synced.setData_response returned
    | _ => exact synced.assignField rfl returned

private theorem synced_of_build {origin : Origin} (built : origin.build kind = .ok p) : Synced p := by
  match origin, built with
  | .create, built =>
    rw [Origin.build, Packet.create_eq] at built
    cases built
    exact synced_toPacket blank
  | .ofCanMsg msg, built =>
    obtain ⟨f, rfl⟩ := Packet.exists_fields_of_ofCanMsg built
    exact synced_toPacket f
  | .ofFields cmd crc size deviceId data, built =>
    cases kind with
    | command =>
      rw [Origin.build, Packet.ofFields] at built
      obtain ⟨f, rfl⟩ := CommandPacket.exists_fields_of_ofFields built
      exact synced_toPacket f
    | response =>
      rw [Origin.build, Packet.ofFields] at built
      obtain ⟨value, rfl, enough, rfl⟩ := ResponsePacket.ofFields_cases built
      exact ⟨enough, rfl⟩

/-- So do all the objects reached by assignments that return. -/
private theorem synced_of_run {origin : Origin} (built : origin.build kind = .ok p)
    {history : List Assignment} (run : (Packet.returning kind).Run p history q) : Synced q := by
  refine run.invariant (I := fun _ q => Synced q) (synced_of_build built) ?_
  intro before middle a next _ synced stepped
  exact synced.assign (Packet.returning_step_iff.mp stepped)

/-- The fields as the wire carries them. -/
def onWire (f : PacketFields) : PacketFields :=
  { f with crc := UInt8.ofNat (f.crc.toNat % 32), size := UInt8.ofNat (f.size.toNat % 8) }

theorem onWire_crc (f : PacketFields) : (onWire f).crc.toNat = f.crc.toNat % 32 :=
  UInt8.toNat_ofNat_of_lt' (Nat.lt_of_lt_of_le (Nat.mod_lt _ (by decide)) (by decide))

theorem onWire_size (f : PacketFields) : (onWire f).size.toNat = f.size.toNat % 8 :=
  UInt8.toNat_ofNat_of_lt' (Nat.lt_of_lt_of_le (Nat.mod_lt _ (by decide)) (by decide))

/-- The wire carries the fields as they are exactly when they fit. -/
private theorem onWire_eq_iff (f : PacketFields) :
    (onWire f).crc = f.crc ∧ (onWire f).size = f.size ↔ f.Fits := by
  simp only [Fits, ← UInt8.toNat_inj, onWire_crc, onWire_size, UInt8.lt_iff_toNat_lt,
    UInt8.reduceToNat]
  omega

theorem decode_wire_eq (f : PacketFields) : decode f.wire = onWire f := by
  have fits : (onWire f).Fits := by
    simp only [Fits, UInt8.lt_iff_toNat_lt, onWire_crc, onWire_size, UInt8.reduceToNat]
    omega
  have same : f.wire = (onWire f).wire := by
    refine (wire_eq_iff f (onWire f)).mpr ⟨rfl, ?_, ?_, rfl, rfl⟩
    · rw [onWire_crc, Nat.mod_mod]
    · rw [onWire_size, Nat.mod_mod]
  rw [same, decode_wire fits]

/-- Parsing gives back every field of a packet whose getter reports no more than five data bytes, the
checksum modulo 32 and the size modulo 8; so these two come back as they are exactly when they fit. -/
theorem parse_image {origin : Origin} (built : origin.build kind = .ok p) {history : List Assignment}
    (run : (Packet.returning kind).Run p history q) (short : q.data.length ≤ 5) :
    ∃ parsed : Packet kind, Packet.ofCanMsg q.mappedMsg = .ok parsed ∧
      parsed.cmd = q.cmd ∧ parsed.deviceId = q.deviceId ∧ parsed.data = q.data ∧
        parsed.crc.toNat = q.crc.toNat % 32 ∧ parsed.size.toNat = q.size.toNat % 8 ∧
          (parsed.crc = q.crc ∧ parsed.size = q.size ↔ q.crc < 32 ∧ q.size < 8) := by
  obtain ⟨enough, image⟩ := synced_of_run built run
  have five : q.data.toArray.size = 5 := Nat.le_antisymm short enough
  let f : PacketFields := ⟨q.cmd, q.crc, q.size, q.deviceId, ⟨q.data.toArray, five⟩⟩
  have onBus : q.mappedMsg.data = f.wire.toList := by
    rw [image, wire_toList, List.take_of_length_le short]
    rfl
  refine ⟨(onWire f).toPacket kind, ?_, rfl, rfl, rfl, onWire_crc f, onWire_size f, onWire_eq_iff f⟩
  rw [Packet.ofCanMsg_eq _ f.wire onBus, decode_wire_eq]

/-- A checksum of 40 that is replaced by 33, a size of twelve, and one byte of the payload. -/
theorem parse_image_of_begin :
    ∃ q parsed : CommandPacket, (Packet.returning .command).Run
        ((⟨2, 40, 4, 9, #v[8, 0, 0, 0, 0]⟩ : PacketFields).toPacket .command)
        [.size 12, .data (some [7]), .crc 33] q ∧
      Packet.ofCanMsg q.mappedMsg = .ok parsed ∧ parsed.data = [7, 0, 0, 0, 0] ∧ parsed.crc.toNat = 1 ∧
        parsed.size.toNat = 4 := by
  have built : (Origin.ofFields 2 40 4 9 (some [8, 0, 0, 0, 0])).build .command = .ok _ :=
    Packet.ofFields_eq .command 2 40 4 9 #v[8, 0, 0, 0, 0]
  have run := CommandPacket.run_of_fine (show ∀ a ∈ [Assignment.size 12, .data (some [7]), .crc 33],
    CommandPacket.fault a = none by decide) ⟨2, 40, 4, 9, #v[8, 0, 0, 0, 0]⟩
  obtain ⟨parsed, parses, -, -, data, crc, size, -⟩ := parse_image built run (by simp [toPacket])
  exact ⟨_, parsed, run, parses, data.trans (by decide), crc, size⟩

/-- A checksum of 40 is parsed as 8. -/
theorem checksum_truncated :
    ∃ p parsed : CommandPacket, (Origin.ofFields 2 40 4 9 (some [8, 0, 0, 0, 0])).build .command = .ok p ∧
      (Packet.returning .command).Run p [] p ∧ Packet.ofCanMsg p.mappedMsg = .ok parsed ∧
        parsed.crc ≠ p.crc := by
  have built : (Origin.ofFields 2 40 4 9 (some [8, 0, 0, 0, 0])).build .command = .ok _ :=
    Packet.ofFields_eq .command 2 40 4 9 #v[8, 0, 0, 0, 0]
  refine ⟨_, _, built, .refl _, Packet.ofCanMsg_eq _ _ rfl, ?_⟩
  rw [decode_wire_eq]
  decide

end OtaCli.Proofs.FieldTruncation
