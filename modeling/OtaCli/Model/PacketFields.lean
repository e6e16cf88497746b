import OtaCli.Model.Packet

/-! # The packet format, independently of the two classes

A packet with a full data array is five fields, and its eight wire bytes are a function of them.
`PacketFields` is that tuple and `decode` reads it back from any eight bytes; on fields that fit
their bits the two are mutually inverse (`wireEquiv`). The classes keep a second, mutable copy of
the wire bytes: `toPacket` is the object whose copy agrees, and every constructor and setter of
the code is shown to lead from such objects to such objects.
-/

namespace OtaCli.Model

/-- The low five bits carry the checksum and the high three the size, whatever the two bytes are. -/
theorem packCrcSize_toNat (crc size : UInt8) :
    (packCrcSize crc size).toNat = crc.toNat % 32 + 32 * (size.toNat % 8) := by
  have low : crc.toNat % 32 < 2 ^ 5 := Nat.mod_lt _ (by decide)
  have crcBits : crc.toNat &&& 31 = crc.toNat % 32 := Nat.and_two_pow_sub_one_eq_mod _ 5
  have sizeBits : size.toNat &&& 7 = size.toNat % 8 := Nat.and_two_pow_sub_one_eq_mod _ 3
  have shifted : (size.toNat % 8) <<< 5 % 256 = (size.toNat % 8) <<< 5 :=
    Nat.mod_eq_of_lt (by rw [Nat.shiftLeft_eq]; omega)
  have disjoint := Nat.shiftLeft_add_eq_or_of_lt low (size.toNat % 8)
  simp only [packCrcSize, UInt8.toNat_or, UInt8.toNat_and, UInt8.toNat_shiftLeft, UInt8.reduceToNat,
    Nat.reduceMod, crcBits, sizeBits, Nat.reducePow, shifted]
  rw [Nat.or_comm, ← disjoint, Nat.shiftLeft_eq]
  omega

theorem unpackCrc_toNat (packed : UInt8) : (unpackCrc packed).toNat = packed.toNat % 32 := by
  simpa [unpackCrc] using Nat.and_two_pow_sub_one_eq_mod packed.toNat 5

theorem unpackSize_toNat (packed : UInt8) : (unpackSize packed).toNat = packed.toNat / 32 := by
  have bound := packed.toNat_lt
  have masked : packed.toNat / 32 &&& 7 = packed.toNat / 32 % 8 :=
    Nat.and_two_pow_sub_one_eq_mod _ 3
  simp only [unpackSize, UInt8.toNat_and, UInt8.toNat_shiftRight, UInt8.reduceToNat, Nat.reduceMod,
    Nat.shiftRight_eq_div_pow, Nat.reducePow, masked]
  omega

/-- Splitting a byte and packing it again loses nothing. -/
theorem packCrcSize_unpack (packed : UInt8) :
    packCrcSize (unpackCrc packed) (unpackSize packed) = packed := by
  apply UInt8.toNat_inj.mp
  have bound := packed.toNat_lt
  rw [packCrcSize_toNat, unpackCrc_toNat, unpackSize_toNat]
  omega

/-- Packing forgets exactly the bits that do not fit. -/
theorem packCrcSize_eq_iff (crc size crc' size' : UInt8) :
    packCrcSize crc size = packCrcSize crc' size' ↔
      crc.toNat % 32 = crc'.toNat % 32 ∧ size.toNat % 8 = size'.toNat % 8 := by
  rw [← UInt8.toNat_inj, packCrcSize_toNat, packCrcSize_toNat]
  omega

/-- The five fields of a packet whose data array has its full length. -/
@[ext] structure PacketFields where
  cmd : UInt8
  crc : UInt8
  size : UInt8
  deviceId : UInt8
  data : Vector UInt8 5
deriving DecidableEq, Repr

namespace PacketFields

/-- The eight bytes on the bus. -/
def wire (f : PacketFields) : Vector UInt8 8 :=
  #v[f.cmd, packCrcSize f.crc f.size, f.deviceId] ++ f.data

/-- Read the fields from any eight bytes. -/
def decode (bytes : Vector UInt8 8) : PacketFields where
  cmd := bytes[0]
  crc := unpackCrc bytes[1]
  size := unpackSize bytes[1]
  deviceId := bytes[2]
  data := Vector.ofFn fun i => bytes[i.val + 3]

/-- The fields fit the bits they have on the wire. -/
def Fits (f : PacketFields) : Prop := f.crc < 32 ∧ f.size < 8

theorem wire_toList (f : PacketFields) :
    f.wire.toList = f.cmd :: packCrcSize f.crc f.size :: f.deviceId :: f.data.toList :=
  Vector.toList_append

theorem wire_decode (bytes : Vector UInt8 8) : (decode bytes).wire = bytes := by
  apply Vector.ext
  intro i bound
  match i, bound with
  | 0, _ => rfl
  | 1, _ => exact packCrcSize_unpack bytes[1]
  | 2, _ => rfl
  | i + 3, _ =>
    simp only [wire, decode]
    rw [Vector.getElem_append_right (by omega) (by omega)]
    simp

theorem decode_data_toList (bytes : Vector UInt8 8) :
    (decode bytes).data.toList = (bytes.toList.drop 3).take 5 := by
  apply List.ext_getElem?
  intro i
  rcases Nat.lt_or_ge i 5 with inside | outside
  · simp [decode, inside, Nat.add_comm 3]
  · simp [decode, outside]

theorem decode_fits (bytes : Vector UInt8 8) : (decode bytes).Fits := by
  have bound := bytes[1].toNat_lt
  simp only [Fits, decode, UInt8.lt_iff_toNat_lt, unpackCrc_toNat, unpackSize_toNat,
    UInt8.reduceToNat]
  omega

/-- Two packets share their wire bytes exactly when the fields agree on the bits they keep. -/
theorem wire_eq_iff (f g : PacketFields) :
    f.wire = g.wire ↔ f.cmd = g.cmd ∧ f.crc.toNat % 32 = g.crc.toNat % 32 ∧
      f.size.toNat % 8 = g.size.toNat % 8 ∧ f.deviceId = g.deviceId ∧ f.data = g.data := by
  rw [← Vector.toList_inj, wire_toList, wire_toList]
  simp only [List.cons.injEq, packCrcSize_eq_iff, Vector.toList_inj]
  tauto

theorem Fits.eq_of_wire_eq {f g : PacketFields} (left : f.Fits) (right : g.Fits)
    (same : f.wire = g.wire) : f = g := by
  obtain ⟨cmd, crc, size, deviceId, data⟩ := (wire_eq_iff f g).mp same
  simp only [Fits, UInt8.lt_iff_toNat_lt, UInt8.reduceToNat] at left right
  have crc_eq : f.crc = g.crc := UInt8.toNat_inj.mp (by omega)
  have size_eq : f.size = g.size := UInt8.toNat_inj.mp (by omega)
  exact PacketFields.ext cmd crc_eq size_eq deviceId data

theorem decode_wire {f : PacketFields} (fits : f.Fits) : decode f.wire = f :=
  (decode_fits _).eq_of_wire_eq fits (wire_decode _)

/-- The format is a bijection between fitting fields and eight-byte frames. -/
def wireEquiv : { f : PacketFields // f.Fits } ≃ Vector UInt8 8 where
  toFun f := f.val.wire
  invFun bytes := ⟨decode bytes, decode_fits bytes⟩
  left_inv f := Subtype.ext (decode_wire f.property)
  right_inv := wire_decode

/-- The object with these fields whose wire image agrees with them. -/
def toPacket (kind : PacketKind) (f : PacketFields) : Packet kind where
  cmd := f.cmd
  crc := f.crc
  size := f.size
  deviceId := f.deviceId
  data := f.data.toList
  mappedMsg := { id := kind.canId, data := f.wire.toList }

/-- Replace the leading data bytes; a short array leaves the later ones. -/
def storeData (f : PacketFields) (value : List UInt8) : PacketFields :=
  { f with data := Vector.ofFn fun i => value[i.val]?.getD f.data[i] }

/-- What an assignment that does not throw means for the fields of a command packet. -/
def assign (f : PacketFields) : Assignment → PacketFields
  | .cmd value => { f with cmd := value }
  | .crc value => { f with crc := value }
  | .size value => { f with size := value }
  | .deviceId value => { f with deviceId := value }
  | .data value => f.storeData (value.getD [])

variable {kind : PacketKind}

theorem storeData_toList (f : PacketFields) {value : List UInt8} (fits : value.length ≤ 5) :
    (f.storeData value).data.toList = f.data.toList.overwrite 0 value := by
  apply List.ext_getElem?
  intro i
  rcases Nat.lt_or_ge i value.length with inside | beyond
  · have bound : i < 5 := by omega
    simp [storeData, List.overwrite, List.getElem?_append, inside, bound]
  · rcases Nat.lt_or_ge i 5 with bound | outside
    · simp [storeData, List.overwrite, List.getElem?_append, beyond, bound,
        Nat.add_sub_cancel' beyond]
    · simp [storeData, List.overwrite, List.getElem?_append, beyond, outside]

/-- Recompiling an object with these fields yields the one whose image agrees. -/
theorem recompileMsg_toPacket (f : PacketFields) (p : Packet kind)
    (fields : p.withMapped f.wire.toList = f.toPacket kind) (mapped : p.mappedMsg.data.length = 8) :
    Packet.recompileMsg p = .ok () (f.toPacket kind) := by
  have parts := fields
  simp only [Packet.withMapped, toPacket, Packet.mk.injEq] at parts
  obtain ⟨cmd, crc, size, deviceId, data, -⟩ := parts
  rw [Packet.recompileMsg_eq p (by simp [data]) mapped, cmd, crc, size, deviceId, data,
    ← wire_toList, fields]

/-- The byte setters act on the fields and keep the image in agreement. -/
theorem assignField_toPacket (f g : PacketFields) (store : Packet kind → Packet kind)
    (fields : (store (f.toPacket kind)).withMapped g.wire.toList = g.toPacket kind)
    (mapped : (store (f.toPacket kind)).mappedMsg = (f.toPacket kind).mappedMsg) :
    Packet.assignField store (f.toPacket kind) = .ok () (g.toPacket kind) := by
  simp only [Packet.assignField, Method.bind_apply, Method.modify_apply]
  exact recompileMsg_toPacket g _ fields (by rw [mapped]; simp [toPacket])

theorem setCmd_toPacket (f : PacketFields) (value : UInt8) :
    Packet.setCmd value (f.toPacket kind) = .ok () (({ f with cmd := value }).toPacket kind) :=
  f.assignField_toPacket _ _ rfl rfl

theorem setCrc_toPacket (f : PacketFields) (value : UInt8) :
    Packet.setCrc value (f.toPacket kind) = .ok () (({ f with crc := value }).toPacket kind) :=
  f.assignField_toPacket _ _ rfl rfl

theorem setSize_toPacket (f : PacketFields) (value : UInt8) :
    Packet.setSize value (f.toPacket kind) = .ok () (({ f with size := value }).toPacket kind) :=
  f.assignField_toPacket _ _ rfl rfl

theorem setDeviceId_toPacket (f : PacketFields) (value : UInt8) :
    Packet.setDeviceId value (f.toPacket kind) = .ok () (({ f with deviceId := value }).toPacket kind) :=
  f.assignField_toPacket _ _ rfl rfl

/-- The fields of a new object before its constructor body runs. -/
def blank : PacketFields := ⟨0, 0, 0, 0, Vector.replicate 5 0⟩

/-- Writing the identifier into a new object already makes its all-zero image agree. -/
theorem writeId_blank : Packet.writeId ({} : Packet kind) = .ok () (blank.toPacket kind) := rfl

end PacketFields

namespace Packet

open PacketFields

variable {kind : PacketKind}

theorem create_eq : (create : Except Exception (Packet kind)) = .ok (blank.toPacket kind) := by
  apply construct_of_ok
  simp only [Method.bind_apply, writeId_blank]
  exact recompileMsg_toPacket blank _ rfl rfl

/-- Parsing decodes the first eight bytes, and the new object's image is those bytes again. -/
theorem ofCanMsg_of_take (msg : CanMsg) (bytes : Vector UInt8 8)
    (received : msg.data.take 8 = bytes.toList) :
    (ofCanMsg msg : Except Exception (Packet kind)) = .ok ((decode bytes).toPacket kind) := by
  apply construct_of_ok
  have size : 8 ≤ msg.data.length := by
    have taken := congrArg List.length received
    rw [List.length_take, Vector.length_toList] at taken
    omega
  have read (i : ℕ) (bound : i < 8) : element msg.data i = .ok bytes[i] := by
    have byte := congrArg (·[i]?) received
    simp only [List.getElem?_take_of_lt bound, Vector.getElem?_toList, bound,
      Vector.getElem?_eq_getElem] at byte
    simp [element, byte]
  simp only [Method.bind_apply, writeId_blank, read 0 (by decide), read 1 (by decide),
    read 2 (by decide), Method.lift_ok, Method.modify_apply]
  rw [readDataBytes_eq msg 5 3 0 _ (by omega) (by simp [toPacket])]
  apply recompileMsg_toPacket
  · have stored : blank.data.toList.overwrite 0 ((msg.data.drop 3).take 5) =
        (decode bytes).data.toList := by
      have five : ((msg.data.drop 3).take 5).length = 5 := by
        rw [List.length_take, List.length_drop]
        omega
      rw [List.overwrite_of_length_eq (by simpa using five), decode_data_toList, ← received,
        List.drop_take]
      simp [blank]
    simp only [toPacket, withMapped, withData, stored]
    rfl
  · simp [withData, toPacket]

/-- Parsing eight received bytes. -/
theorem ofCanMsg_eq (msg : CanMsg) (bytes : Vector UInt8 8) (received : msg.data = bytes.toList) :
    (ofCanMsg msg : Except Exception (Packet kind)) = .ok ((decode bytes).toPacket kind) :=
  ofCanMsg_of_take msg bytes (by rw [received, List.take_of_length_le (by simp)])

/-- A message of fewer than eight bytes does not parse. -/
theorem ofCanMsg_of_short (msg : CanMsg) (short : msg.data.length < 8) :
    (ofCanMsg msg : Except Exception (Packet kind)) = .error .indexOutOfRange := by
  rcases Nat.lt_or_ge msg.data.length 3 with header | payload
  · obtain ⟨id, dlc, flags, data, timestamp⟩ := msg
    match data, header with
    | [], _ => rfl
    | [_], _ => rfl
    | [_, _], _ => rfl
  · obtain ⟨after, thrown⟩ := readDataBytes_of_short msg 5 3 0 (⟨msg.data[0], unpackCrc msg.data[1],
      unpackSize msg.data[1], msg.data[2], (blank.toPacket kind).data,
      (blank.toPacket kind).mappedMsg⟩ : Packet kind) payload short (by simp [toPacket])
    simp only [ofCanMsg, construct, Method.bind_apply, writeId_blank, Method.lift_ok,
      Method.modify_apply, element_of_lt (show 0 < msg.data.length by omega),
      element_of_lt (show 1 < msg.data.length by omega),
      element_of_lt (show 2 < msg.data.length by omega), thrown]

/-- A packet whose fields fit is recovered from its image, object and all. -/
theorem ofCanMsg_toPacket {f : PacketFields} (fits : f.Fits) :
    ofCanMsg (f.toPacket kind).mappedMsg = .ok (f.toPacket kind) := by
  have back : decode f.wire = f := congrArg Subtype.val (wireEquiv.symm_apply_apply ⟨f, fits⟩)
  rw [ofCanMsg_eq _ f.wire rfl, back]

end Packet

namespace CommandPacket

open PacketFields

/-- The exception an assignment raises, if any. -/
def fault : Assignment → Option Exception
  | .data none => some .nullReference
  | .data (some value) => if value.length > 5 then some (.argumentNull "value") else none
  | _ => none

theorem fault_data_eq_none_iff {data : Option (List UInt8)} :
    fault (.data data) = none ↔ ∃ value, data = some value ∧ value.length ≤ 5 := by
  cases data with
  | none => simp [fault]
  | some value => simp [fault]

/-- A faulting assignment throws and changes nothing, whatever the object. -/
theorem assign_of_fault {a : Assignment} {e : Exception} (faulty : fault a = some e)
    (p : CommandPacket) : assign a p = .error e p := by
  match a, faulty with
  | .data none, faulty => cases faulty; rfl
  | .data (some value), faulty =>
    simp only [fault] at faulty
    split at faulty
    · next long => cases faulty; simp [assign, setData, long]
    · contradiction

/-- Any other assignment returns, with the fields as specified and the image in agreement. -/
theorem assign_toPacket {a : Assignment} (fine : fault a = none) (f : PacketFields) :
    assign a (f.toPacket .command) = .ok () ((f.assign a).toPacket .command) := by
  match a, fine with
  | .cmd value, _ => exact f.setCmd_toPacket value
  | .crc value, _ => exact f.setCrc_toPacket value
  | .size value, _ => exact f.setSize_toPacket value
  | .deviceId value, _ => exact f.setDeviceId_toPacket value
  | .data (some value), fine =>
    obtain ⟨_, ⟨⟩, short⟩ := fault_data_eq_none_iff.mp fine
    have copied := copyDataBytes_eq value value.length 0 (f.toPacket .command) (by omega)
      (by simpa [PacketFields.toPacket] using short)
    rw [List.drop_zero] at copied
    simp only [assign, setData, Method.bind_apply, copied, PacketFields.assign, Option.getD_some,
      gt_iff_lt, Nat.not_lt.mpr short, ↓reduceIte]
    apply PacketFields.recompileMsg_toPacket
    · have stored : (f.storeData value).data.toList = (f.toPacket .command).data.overwrite 0 value :=
        f.storeData_toList short
      simp only [PacketFields.toPacket, Packet.withMapped, Packet.withData, stored]
      rfl
    · simp [Packet.withData, PacketFields.toPacket]

/-- The five-argument constructor goes through the setters on a blank object, so a short array is
padded with zeros. -/
theorem ofFields_eq (cmd crc size targetId : UInt8) {value : List UInt8} (short : value.length ≤ 5) :
    ofFields cmd crc size targetId (some value) =
      .ok (((⟨cmd, crc, size, targetId, Vector.replicate 5 0⟩ : PacketFields).storeData
        value).toPacket .command) := by
  apply Packet.construct_of_ok
  have fine : fault (.data (some value)) = none := if_neg (Nat.not_lt.mpr short)
  have stored := assign_toPacket fine ⟨cmd, crc, size, targetId, Vector.replicate 5 0⟩
  simp only [assign] at stored
  simp only [Method.bind_apply, writeId_blank, setCmd_toPacket, setCrc_toPacket, setSize_toPacket,
    setDeviceId_toPacket]
  rw [show ({ blank with cmd := cmd, crc := crc, size := size, deviceId := targetId } : PacketFields) =
    ⟨cmd, crc, size, targetId, Vector.replicate 5 0⟩ from rfl, stored]
  exact recompileMsg_toPacket _ _ rfl (by simp [toPacket])

/-- A faulting data argument means there is no object. -/
theorem ofFields_of_fault (cmd crc size targetId : UInt8) {data : Option (List UInt8)} {e : Exception}
    (faulty : fault (.data data) = some e) : ofFields cmd crc size targetId data = .error e := by
  have thrown := assign_of_fault faulty
  simp only [assign] at thrown
  apply Packet.construct_of_error
  simp only [Method.bind_apply, writeId_blank, setCmd_toPacket, setCrc_toPacket, setSize_toPacket,
    setDeviceId_toPacket, thrown]
  rfl

end CommandPacket

namespace ResponsePacket

open PacketFields

/-- With a full array the response constructor, too, leaves an object in agreement. -/
theorem ofFields_eq (cmd crc size senderId : UInt8) (value : Vector UInt8 5) :
    ofFields cmd crc size senderId (some value.toList) =
      .ok ((⟨cmd, crc, size, senderId, value⟩ : PacketFields).toPacket .response) := by
  apply Packet.construct_of_ok
  simp only [Method.bind_apply, writeId_blank, Method.modify_apply]
  exact recompileMsg_toPacket _ _ rfl (by simp [toPacket])

end ResponsePacket

/-- The five-argument constructor of either class. -/
def Packet.ofFields : (kind : PacketKind) → (cmd crc size deviceId : UInt8) → Option (List UInt8) →
    Except Exception (Packet kind)
  | .command => CommandPacket.ofFields
  | .response => ResponsePacket.ofFields

/-- On a full array the two constructors build the same fields. -/
theorem Packet.ofFields_eq (kind : PacketKind) (cmd crc size deviceId : UInt8) (value : Vector UInt8 5) :
    Packet.ofFields kind cmd crc size deviceId (some value.toList) =
      .ok ((⟨cmd, crc, size, deviceId, value⟩ : PacketFields).toPacket kind) := by
  cases kind with
  | command =>
    have full : (⟨cmd, crc, size, deviceId, Vector.replicate 5 0⟩ : PacketFields).storeData
        value.toList = ⟨cmd, crc, size, deviceId, value⟩ := by
      simp [PacketFields.storeData]
    rw [← full]
    exact CommandPacket.ofFields_eq cmd crc size deviceId (by simp)
  | response => exact ResponsePacket.ofFields_eq cmd crc size deviceId value

end OtaCli.Model
