import OtaCli.Model.CanMsg
import OtaCli.ToMathlib.ListOverwrite

/-! # Command and response packets

`CommandPacket` and `ResponsePacket` are written twice in the source and differ in three places:
the CAN id, the five-argument constructor, and the `Data` setter. The shared bodies are defined
here over the kind of packet; each class keeps its own constructors and setters. Every field is
kept beside the wire image `mappedMsg`, a second copy which the bodies must bring up to date.
-/

namespace OtaCli.Model

inductive PacketKind where
  | command
  | response
deriving DecidableEq, Repr

/-- The identifier which the constructors of each class write. -/
def PacketKind.canId : PacketKind → Int32
  | .command => 0x7d1
  | .response => 0x7d2

/-- The private fields with their initializers. `deviceId` is `_targetId` in a command and
`_senderId` in a response. -/
structure Packet (kind : PacketKind) where
  cmd : UInt8 := 0
  crc : UInt8 := 0
  size : UInt8 := 0
  deviceId : UInt8 := 0
  data : List UInt8 := List.replicate 5 0
  mappedMsg : CanMsg := {}
deriving DecidableEq, Repr

abbrev CommandPacket := Packet .command
abbrev ResponsePacket := Packet .response

variable {kind : PacketKind}

/-- `(byte)((_crc & 0b00011111) | ((_size & 0b00000111) << 5))`. -/
def packCrcSize (crc size : UInt8) : UInt8 :=
  (crc &&& 0b00011111 : UInt8) ||| ((size &&& 0b00000111 : UInt8) <<< 5)

/-- `(byte)(msg.Data[1] & 0b00011111)`. -/
def unpackCrc (packed : UInt8) : UInt8 := packed &&& 0b00011111

/-- `(byte)((msg.Data[1] >> 5) & 0b00000111)`. -/
def unpackSize (packed : UInt8) : UInt8 := (packed >>> 5) &&& 0b00000111

namespace Packet

/-- `_mappedMsg.Data[index] = value`. -/
def writeMapped (index : ℕ) (value : UInt8) : Method (Packet kind) Unit := do
  let bytes ← assignElement (← get).mappedMsg.data index value
  modify fun packet => { packet with mappedMsg := { packet.mappedMsg with data := bytes } }

/-- `_data[index] = value`. -/
def writeData (index : ℕ) (value : UInt8) : Method (Packet kind) Unit := do
  let bytes ← assignElement (← get).data index value
  modify fun packet => { packet with data := bytes }

/-- The loop `for (; i < 8; i++) _mappedMsg.Data[i] = _data[dataBytePointer++]`, with `rounds`
iterations left. -/
def mapDataBytes : (rounds i dataBytePointer : ℕ) → Method (Packet kind) Unit
  | 0, _, _ => pure ()
  | rounds + 1, i, dataBytePointer => do
    writeMapped i (← element (← get).data dataBytePointer)
    mapDataBytes rounds (i + 1) (dataBytePointer + 1)

def recompileMsg : Method (Packet kind) Unit := do
  writeMapped 0 (← get).cmd
  writeMapped 1 (packCrcSize (← get).crc (← get).size)
  writeMapped 2 (← get).deviceId
  mapDataBytes 5 3 0

/-- Run a constructor body on a new object; when it throws there is no object. -/
def construct (body : Method (Packet kind) Unit) : Except Exception (Packet kind) :=
  match body {} with
  | .ok _ packet => .ok packet
  | .error e _ => .error e

/-- `_mappedMsg.Id = ...`, the first statement of every constructor. -/
def writeId : Method (Packet kind) Unit :=
  modify fun packet => { packet with mappedMsg := { packet.mappedMsg with id := kind.canId } }

/-- The parameterless constructor. -/
def create : Except Exception (Packet kind) := construct do
  writeId
  recompileMsg

/-- The loop `for (; i < 8; i++) _data[dataBytePointer++] = msg.Data[i]`. -/
def readDataBytes (msg : CanMsg) : (rounds i dataBytePointer : ℕ) → Method (Packet kind) Unit
  | 0, _, _ => pure ()
  | rounds + 1, i, dataBytePointer => do
    writeData dataBytePointer (← element msg.data i)
    readDataBytes msg rounds (i + 1) (dataBytePointer + 1)

/-- The constructor from a received message. -/
def ofCanMsg (msg : CanMsg) : Except Exception (Packet kind) := construct do
  writeId
  let cmd ← element msg.data 0
  modify fun packet => { packet with cmd := cmd }
  let crc ← element msg.data 1
  modify fun packet => { packet with crc := unpackCrc crc }
  let size ← element msg.data 1
  modify fun packet => { packet with size := unpackSize size }
  let deviceId ← element msg.data 2
  modify fun packet => { packet with deviceId := deviceId }
  readDataBytes msg 5 3 0
  recompileMsg

/-- The common shape of the four byte setters: store the value, then recompile. -/
def assignField (store : Packet kind → Packet kind) : Method (Packet kind) Unit := do
  modify store
  recompileMsg

def setCmd (value : UInt8) : Method (Packet kind) Unit :=
  assignField fun packet => { packet with cmd := value }

def setCrc (value : UInt8) : Method (Packet kind) Unit :=
  assignField fun packet => { packet with crc := value }

def setSize (value : UInt8) : Method (Packet kind) Unit :=
  assignField fun packet => { packet with size := value }

/-- `TargetId` of a command, `SenderId` of a response. -/
def setDeviceId (value : UInt8) : Method (Packet kind) Unit :=
  assignField fun packet => { packet with deviceId := value }

/-- The packet with other bytes in its wire image. -/
def withMapped (p : Packet kind) (bytes : List UInt8) : Packet kind :=
  { p with mappedMsg := { p.mappedMsg with data := bytes } }

/-- The packet with another data array. -/
def withData (p : Packet kind) (bytes : List UInt8) : Packet kind := { p with data := bytes }

@[simp] theorem writeMapped_of_lt (p : Packet kind) {index : ℕ} (value : UInt8)
    (bound : index < p.mappedMsg.data.length) :
    writeMapped index value p = .ok () (p.withMapped (p.mappedMsg.data.set index value)) := by
  simp [writeMapped, withMapped, bound]

@[simp] theorem writeData_of_lt (p : Packet kind) {index : ℕ} (value : UInt8)
    (bound : index < p.data.length) :
    writeData index value p = .ok () (p.withData (p.data.set index value)) := by
  simp [writeData, withData, bound]

/-- The copy loop of `RecompileMsg` overwrites the image with a block of the data array. -/
theorem mapDataBytes_eq (rounds i dataBytePointer : ℕ) (p : Packet kind)
    (source : dataBytePointer + rounds ≤ p.data.length)
    (target : i + rounds ≤ p.mappedMsg.data.length) :
    mapDataBytes rounds i dataBytePointer p = .ok () (p.withMapped
      (p.mappedMsg.data.overwrite i ((p.data.drop dataBytePointer).take rounds))) := by
  induction rounds generalizing i dataBytePointer p with
  | zero => simp [mapDataBytes, withMapped]
  | succ rounds ih =>
    have inSource : dataBytePointer < p.data.length := by omega
    have inTarget : i < p.mappedMsg.data.length := by omega
    rw [List.drop_eq_getElem_cons inSource, List.take_succ_cons, ← List.overwrite_set_succ inTarget]
    simp only [mapDataBytes, Method.bind_apply, Method.get_apply, element_of_lt inSource,
      Method.lift_ok, writeMapped_of_lt p _ inTarget]
    rw [ih]
    · rfl
    · simp only [withMapped]
      omega
    · simp only [withMapped, List.length_set]
      omega

/-- The copy loop of the receiving constructor overwrites the data array with received bytes. -/
theorem readDataBytes_eq (msg : CanMsg) (rounds i dataBytePointer : ℕ) (p : Packet kind)
    (source : i + rounds ≤ msg.data.length) (target : dataBytePointer + rounds ≤ p.data.length) :
    readDataBytes msg rounds i dataBytePointer p = .ok () (p.withData
      (p.data.overwrite dataBytePointer ((msg.data.drop i).take rounds))) := by
  induction rounds generalizing i dataBytePointer p with
  | zero => simp [readDataBytes, withData]
  | succ rounds ih =>
    have inSource : i < msg.data.length := by omega
    have inTarget : dataBytePointer < p.data.length := by omega
    rw [List.drop_eq_getElem_cons inSource, List.take_succ_cons, ← List.overwrite_set_succ inTarget]
    simp only [readDataBytes, Method.bind_apply, element_of_lt inSource, Method.lift_ok,
      writeData_of_lt p _ inTarget]
    rw [ih]
    · rfl
    · omega
    · simp only [withData, List.length_set]
      omega

/-- The copy loop of the receiving constructor reads past the end of a message that is too short. -/
theorem readDataBytes_of_short (msg : CanMsg) (rounds i dataBytePointer : ℕ) (p : Packet kind)
    (source : i ≤ msg.data.length) (short : msg.data.length < i + rounds)
    (target : dataBytePointer + rounds ≤ p.data.length) :
    ∃ after, readDataBytes msg rounds i dataBytePointer p = .error .indexOutOfRange after := by
  induction rounds generalizing i dataBytePointer p with
  | zero => omega
  | succ rounds ih =>
    rcases Nat.lt_or_ge i msg.data.length with inSource | atEnd
    · have inTarget : dataBytePointer < p.data.length := by omega
      simp only [readDataBytes, Method.bind_apply, element_of_lt inSource, Method.lift_ok,
        writeData_of_lt p _ inTarget]
      exact ih (i + 1) (dataBytePointer + 1) _ inSource (by omega)
        (by simp only [withData, List.length_set]; omega)
    · have outside : element msg.data i = .error .indexOutOfRange := by
        simp [element, List.getElem?_eq_none atEnd]
      simp only [readDataBytes, Method.bind_apply, outside, Method.lift_error]
      exact ⟨p, rfl⟩

/-- The copy loop of `RecompileMsg` reads past the end of an array that is too short for it. -/
theorem mapDataBytes_of_short (rounds i dataBytePointer : ℕ) (p : Packet kind)
    (source : dataBytePointer ≤ p.data.length) (short : p.data.length < dataBytePointer + rounds)
    (target : i + rounds ≤ p.mappedMsg.data.length) :
    ∃ after, mapDataBytes rounds i dataBytePointer p = .error .indexOutOfRange after ∧
      after.data = p.data := by
  induction rounds generalizing i dataBytePointer p with
  | zero => omega
  | succ rounds ih =>
    rcases Nat.lt_or_ge dataBytePointer p.data.length with inSource | atEnd
    · have inTarget : i < p.mappedMsg.data.length := by omega
      simp only [mapDataBytes, Method.bind_apply, Method.get_apply, element_of_lt inSource,
        Method.lift_ok, writeMapped_of_lt p _ inTarget]
      obtain ⟨after, thrown, same⟩ := ih (i + 1) (dataBytePointer + 1)
        (p.withMapped (p.mappedMsg.data.set i p.data[dataBytePointer])) inSource
        (by simp only [withMapped]; omega) (by simp only [withMapped, List.length_set]; omega)
      exact ⟨after, thrown, same⟩
    · have outside : element p.data dataBytePointer = .error .indexOutOfRange := by
        simp [element, List.getElem?_eq_none atEnd]
      simp only [mapDataBytes, Method.bind_apply, Method.get_apply, outside, Method.lift_error]
      exact ⟨p, rfl, rfl⟩

/-- With an array that is long enough, recompiling makes the image agree with the fields. -/
theorem recompileMsg_of_le (p : Packet kind) (data : 5 ≤ p.data.length)
    (mapped : p.mappedMsg.data.length = 8) :
    recompileMsg p = .ok () (p.withMapped
      (p.cmd :: packCrcSize p.crc p.size :: p.deviceId :: p.data.take 5)) := by
  obtain ⟨b0, b1, b2, b3, b4, b5, b6, b7, bytes⟩ := exists_bytes_of_length_eq_eight mapped
  have copied : ∀ q : Packet kind, q.data = p.data → q.mappedMsg.data.length = 8 →
      mapDataBytes 5 3 0 q = .ok () (q.withMapped (q.mappedMsg.data.take 3 ++ p.data.take 5)) := by
    intro q same size
    have five : (p.data.take 5).length = 5 := by rw [List.length_take]; omega
    rw [mapDataBytes_eq 5 3 0 q (by rw [same]; omega) (by omega), same, List.drop_zero,
      List.overwrite_of_length_eq (by omega)]
  simp [recompileMsg, withMapped, bytes, copied]

/-- With both arrays at full length, the image is made of all the fields. -/
theorem recompileMsg_eq (p : Packet kind) (data : p.data.length = 5)
    (mapped : p.mappedMsg.data.length = 8) :
    recompileMsg p = .ok () (p.withMapped
      (p.cmd :: packCrcSize p.crc p.size :: p.deviceId :: p.data)) := by
  rw [recompileMsg_of_le p data.ge mapped, List.take_of_length_le data.le]

/-- With an array that is too short, recompiling throws halfway. -/
theorem recompileMsg_of_short (p : Packet kind) (short : p.data.length < 5)
    (mapped : p.mappedMsg.data.length = 8) :
    ∃ after, recompileMsg p = .error .indexOutOfRange after ∧ after.data = p.data := by
  have written (q : Packet kind) (same : q.data = p.data) (size : q.mappedMsg.data.length = 8) :
      ∃ after, mapDataBytes 5 3 0 q = .error .indexOutOfRange after ∧ after.data = p.data := by
    obtain ⟨after, thrown, kept⟩ :=
      mapDataBytes_of_short 5 3 0 q (Nat.zero_le _) (by rw [same]; omega) (by omega)
    exact ⟨after, thrown, kept.trans same⟩
  simp only [recompileMsg, Method.bind_apply, Method.get_apply]
  rw [writeMapped_of_lt _ _ (by omega)]
  simp only []
  rw [writeMapped_of_lt _ _ (by simp only [withMapped, List.length_set]; omega)]
  simp only []
  rw [writeMapped_of_lt _ _ (by simp only [withMapped, List.length_set]; omega)]
  exact written _ rfl (by simp only [withMapped, List.length_set]; exact mapped)

/-- A constructor whose body returns yields the object the body leaves. -/
theorem construct_of_ok {body : Method (Packet kind) Unit} {p : Packet kind}
    (returns : body {} = .ok () p) : construct body = .ok p := by
  rw [construct, returns]

theorem construct_of_error {body : Method (Packet kind) Unit} {p : Packet kind} {e : Exception}
    (throws : body {} = .error e p) : (construct body : Except Exception (Packet kind)) = .error e := by
  rw [construct, throws]

end Packet

/-- One property assignment. The array of a `Data` assignment may be null. -/
inductive Assignment where
  | cmd (value : UInt8)
  | crc (value : UInt8)
  | size (value : UInt8)
  | deviceId (value : UInt8)
  | data (value : Option (List UInt8))
deriving DecidableEq, Repr

namespace CommandPacket

open Packet

/-- The loop `for (; i < value.Length; i++) _data[i] = value[i]`. -/
def copyDataBytes (value : List UInt8) : (rounds i : ℕ) → Method CommandPacket Unit
  | 0, _ => pure ()
  | rounds + 1, i => do
    writeData i (← element value i)
    copyDataBytes value rounds (i + 1)

theorem copyDataBytes_eq (value : List UInt8) (rounds i : ℕ) (p : CommandPacket)
    (source : i + rounds = value.length) (target : value.length ≤ p.data.length) :
    copyDataBytes value rounds i p = .ok () (p.withData (p.data.overwrite i (value.drop i))) := by
  induction rounds generalizing i p with
  | zero => simp [copyDataBytes, withData, List.drop_of_length_le (show value.length ≤ i by omega)]
  | succ rounds ih =>
    have inSource : i < value.length := by omega
    have inTarget : i < p.data.length := by omega
    rw [List.drop_eq_getElem_cons inSource, ← List.overwrite_set_succ inTarget]
    simp only [copyDataBytes, Method.bind_apply, element_of_lt inSource, Method.lift_ok,
      writeData_of_lt p _ inTarget]
    rw [ih]
    · rfl
    · omega
    · simp only [withData, List.length_set]
      omega

/-- The setter copies into the packet's own array; `value.Length` throws on null. -/
def setData (value : Option (List UInt8)) : Method CommandPacket Unit := do
  let some value := value | throw .nullReference
  if value.length > 5 then
    throw (.argumentNull "value")
  copyDataBytes value value.length 0
  recompileMsg

def assign : Assignment → Method CommandPacket Unit
  | .cmd value => setCmd value
  | .crc value => setCrc value
  | .size value => setSize value
  | .deviceId value => setDeviceId value
  | .data value => setData value

/-- `CommandPacket(cmd, crc, size, targetId, data)`, which goes through the setters. -/
def ofFields (cmd crc size targetId : UInt8) (data : Option (List UInt8)) :
    Except Exception CommandPacket := construct do
  writeId
  setCmd cmd
  setCrc crc
  setSize size
  setDeviceId targetId
  setData data
  recompileMsg

end CommandPacket

namespace ResponsePacket

open Packet

/-- The setter keeps the caller's array; past the length test it cannot be null. -/
def setData (value : Option (List UInt8)) : Method ResponsePacket Unit := do
  let some value := value | throw .nullReference
  if value.length > 5 then
    throw (.argumentNull "value")
  modify fun packet => { packet with data := value }
  recompileMsg

def assign : Assignment → Method ResponsePacket Unit
  | .cmd value => setCmd value
  | .crc value => setCrc value
  | .size value => setSize value
  | .deviceId value => setDeviceId value
  | .data value => setData value

/-- `ResponsePacket(cmd, crc, size, senderId, data)`, which writes the fields and keeps the array.
A null array is stored unchecked, and `RecompileMsg` throws when it reads it. -/
def ofFields (cmd crc size senderId : UInt8) (data : Option (List UInt8)) :
    Except Exception ResponsePacket := construct do
  writeId
  modify fun packet => { packet with cmd := cmd, crc := crc, size := size, deviceId := senderId }
  let some data := data | throw .nullReference
  modify fun packet => { packet with data := data }
  recompileMsg

end ResponsePacket

end OtaCli.Model
