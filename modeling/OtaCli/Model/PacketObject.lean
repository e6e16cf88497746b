import OtaCli.Machine.Run
import OtaCli.Model.FileUpdater
import OtaCli.Model.PacketHistory

/-! # Packets as objects that refer to arrays

A `Packet` has its arrays as values. The classes of the source refer to them: a packet to its data array and,
through its `CanMsg`, to that of the wire image, and the code which gives a packet an array may go on writing to
it. Here are the bodies of both classes once more, statement by statement, on references to a store of arrays,
and two machines for code that makes arrays and packets: on references, and on values.
-/

namespace OtaCli.Model

/-- A reference to a byte array. -/
abbrev Ref := ℕ

/-- The byte arrays, and the reference which the next new one gets. -/
structure Arrays where
  bytes : Ref → List UInt8 := fun _ => []
  next : Ref := 0

namespace Arrays

/-- `new byte[] { ... }`, at the reference `next`. -/
def allocate (arrays : Arrays) (bytes : List UInt8) : Arrays :=
  ⟨Function.update arrays.bytes arrays.next bytes, arrays.next + 1⟩

def store (arrays : Arrays) (array : Ref) (bytes : List UInt8) : Arrays :=
  { arrays with bytes := Function.update arrays.bytes array bytes }

variable (arrays : Arrays) {array other : Ref} {bytes : List UInt8}

@[simp] theorem allocate_next : (arrays.allocate bytes).next = arrays.next + 1 := rfl

@[simp] theorem allocate_bytes_next : (arrays.allocate bytes).bytes arrays.next = bytes :=
  Function.update_self ..

theorem allocate_bytes_of_lt (old : other < arrays.next) :
    (arrays.allocate bytes).bytes other = arrays.bytes other :=
  Function.update_of_ne (Nat.ne_of_lt old) ..

@[simp] theorem store_next : (arrays.store array bytes).next = arrays.next := rfl

@[simp] theorem store_bytes_self : (arrays.store array bytes).bytes array = bytes := Function.update_self ..

theorem store_bytes_of_ne (apart : other ≠ array) :
    (arrays.store array bytes).bytes other = arrays.bytes other := Function.update_of_ne apart ..

end Arrays

/-- `CanMsg`, with a reference to its array. -/
structure CanMsgObject where
  id : Int32 := 0
  dlc : Int32 := 8
  flags : Int32 := 0
  data : Ref
  timestamp : Int64 := 0
deriving DecidableEq, Repr

def CanMsgObject.value (msg : CanMsgObject) (arrays : Arrays) : CanMsg :=
  ⟨msg.id, msg.dlc, msg.flags, arrays.bytes msg.data, msg.timestamp⟩

/-- A packet, with references to both of its arrays. -/
structure PacketObject (kind : PacketKind) where
  cmd : UInt8 := 0
  crc : UInt8 := 0
  size : UInt8 := 0
  deviceId : UInt8 := 0
  data : Ref
  mappedMsg : CanMsgObject
deriving DecidableEq, Repr

abbrev CommandObject := PacketObject .command
abbrev ResponseObject := PacketObject .response

/-- An object whose method runs, and the arrays. -/
structure Receiver (kind : PacketKind) where
  this : PacketObject kind
  arrays : Arrays

variable {kind : PacketKind}

namespace PacketObject

/-- What the object shows of itself. -/
def value (object : PacketObject kind) (arrays : Arrays) : Packet kind :=
  ⟨object.cmd, object.crc, object.size, object.deviceId, arrays.bytes object.data, object.mappedMsg.value arrays⟩

/-- `array[index]`. -/
def readArray (array : Ref) (index : ℕ) : Method (Receiver kind) UInt8 := do
  element ((← get).arrays.bytes array) index

/-- `array[index] = value`. -/
def writeArray (array : Ref) (index : ℕ) (value : UInt8) : Method (Receiver kind) Unit := do
  let bytes ← assignElement ((← get).arrays.bytes array) index value
  modify fun s => { s with arrays := s.arrays.store array bytes }

/-- `_mappedMsg.Data[index] = value`. -/
def writeMapped (index : ℕ) (value : UInt8) : Method (Receiver kind) Unit := do
  writeArray (← get).this.mappedMsg.data index value

/-- `_data[index] = value`. -/
def writeData (index : ℕ) (value : UInt8) : Method (Receiver kind) Unit := do
  writeArray (← get).this.data index value

/-- The loop `for (; i < 8; i++) _mappedMsg.Data[i] = _data[dataBytePointer++]`, with `rounds`
iterations left. -/
def mapDataBytes : (rounds i dataBytePointer : ℕ) → Method (Receiver kind) Unit
  | 0, _, _ => pure ()
  | rounds + 1, i, dataBytePointer => do
    writeMapped i (← readArray (← get).this.data dataBytePointer)
    mapDataBytes rounds (i + 1) (dataBytePointer + 1)

def recompileMsg : Method (Receiver kind) Unit := do
  writeMapped 0 (← get).this.cmd
  writeMapped 1 (packCrcSize (← get).this.crc (← get).this.size)
  writeMapped 2 (← get).this.deviceId
  mapDataBytes 5 3 0

/-- A new object: the initializers make the data array, and the one in the `CanMsg`. -/
def blank (arrays : Arrays) : Receiver kind :=
  let withData := arrays.allocate (List.replicate 5 0)
  ⟨{ data := arrays.next, mappedMsg := { data := withData.next } }, withData.allocate (List.replicate 8 0)⟩

/-- Run a constructor body on a new object. When it throws there is no object, but the arrays were made. -/
def construct (body : Method (Receiver kind) Unit) (arrays : Arrays) :
    Except Exception (PacketObject kind) × Arrays :=
  match body (blank arrays) with
  | .ok _ s => (.ok s.this, s.arrays)
  | .error e s => (.error e, s.arrays)

/-- A statement on the object's own fields. -/
def update (change : PacketObject kind → PacketObject kind) : Method (Receiver kind) Unit :=
  modify fun s => { s with this := change s.this }

/-- `_mappedMsg.Id = ...`, the first statement of every constructor. -/
def writeId : Method (Receiver kind) Unit :=
  update fun this => { this with mappedMsg := { this.mappedMsg with id := kind.canId } }

/-- The loop `for (; i < 8; i++) _data[dataBytePointer++] = msg.Data[i]`. -/
def readDataBytes (msg : Ref) : (rounds i dataBytePointer : ℕ) → Method (Receiver kind) Unit
  | 0, _, _ => pure ()
  | rounds + 1, i, dataBytePointer => do
    writeData dataBytePointer (← readArray msg i)
    readDataBytes msg rounds (i + 1) (dataBytePointer + 1)

/-- The parameterless constructor. -/
def create : Method (Receiver kind) Unit := do
  writeId
  recompileMsg

/-- The constructor from a received message, of which it reads the array. -/
def ofCanMsg (msg : Ref) : Method (Receiver kind) Unit := do
  writeId
  let cmd ← readArray msg 0
  update fun this => { this with cmd := cmd }
  let crc ← readArray msg 1
  update fun this => { this with crc := unpackCrc crc }
  let size ← readArray msg 1
  update fun this => { this with size := unpackSize size }
  let deviceId ← readArray msg 2
  update fun this => { this with deviceId := deviceId }
  readDataBytes msg 5 3 0
  recompileMsg

/-- The common shape of the four byte setters: store the value, then recompile. -/
def assignField (change : PacketObject kind → PacketObject kind) : Method (Receiver kind) Unit := do
  update change
  recompileMsg

def setCmd (value : UInt8) : Method (Receiver kind) Unit :=
  assignField fun this => { this with cmd := value }

def setCrc (value : UInt8) : Method (Receiver kind) Unit :=
  assignField fun this => { this with crc := value }

def setSize (value : UInt8) : Method (Receiver kind) Unit :=
  assignField fun this => { this with size := value }

/-- `TargetId` of a command, `SenderId` of a response. -/
def setDeviceId (value : UInt8) : Method (Receiver kind) Unit :=
  assignField fun this => { this with deviceId := value }

end PacketObject

namespace CommandObject

open PacketObject

/-- The loop `for (; i < value.Length; i++) _data[i] = value[i]`. -/
def copyDataBytes (value : Ref) : (rounds i : ℕ) → Method (Receiver .command) Unit
  | 0, _ => pure ()
  | rounds + 1, i => do
    writeData i (← readArray value i)
    copyDataBytes value rounds (i + 1)

/-- The setter copies into the packet's own array. -/
def setData (value : Option Ref) : Method (Receiver .command) Unit := do
  let some value := value | throw .nullReference
  let length := ((← get).arrays.bytes value).length
  if length > 5 then
    throw (.argumentNull "value")
  copyDataBytes value length 0
  recompileMsg

/-- `CommandPacket(cmd, crc, size, targetId, data)`, which goes through the setters. -/
def ofFields (cmd crc size targetId : UInt8) (data : Option Ref) : Method (Receiver .command) Unit := do
  writeId
  setCmd cmd
  setCrc crc
  setSize size
  setDeviceId targetId
  setData data
  recompileMsg

end CommandObject

namespace ResponseObject

open PacketObject

/-- The setter keeps the reference. -/
def setData (value : Option Ref) : Method (Receiver .response) Unit := do
  let some value := value | throw .nullReference
  if ((← get).arrays.bytes value).length > 5 then
    throw (.argumentNull "value")
  update fun this => { this with data := value }
  recompileMsg

/-- `ResponsePacket(cmd, crc, size, senderId, data)`, which keeps the reference unchecked. -/
def ofFields (cmd crc size senderId : UInt8) (data : Option Ref) : Method (Receiver .response) Unit := do
  writeId
  update fun this => { this with cmd := cmd, crc := crc, size := size, deviceId := senderId }
  let some data := data | throw .nullReference
  update fun this => { this with data := data }
  recompileMsg

end ResponseObject

/-- The expression that makes a packet, with arrays of type `ρ`. -/
inductive Making (ρ : Type) where
  | create
  | ofCanMsg (msg : ρ)
  | ofFields (cmd crc size deviceId : UInt8) (data : Option ρ)
deriving DecidableEq, Repr

/-- One property assignment. -/
inductive Setting (ρ : Type) where
  | cmd (value : UInt8)
  | crc (value : UInt8)
  | size (value : UInt8)
  | deviceId (value : UInt8)
  | data (value : Option ρ)
deriving DecidableEq, Repr

section Find

variable {ρ κ : Type} {list : List ρ} {data : Option ℕ}

theorem mapM_map (list : List ρ) (f : ρ → κ) :
    data.mapM ((list.map f)[·]?) = (data.mapM (list[·]?)).map (Option.map f) := by
  cases data with
  | none => rfl
  | some array => cases found : list[array]? <;> simp [found]

theorem mem_of_mapM {r : ρ} (found : data.mapM (list[·]?) = some (some r)) : r ∈ list := by
  cases data with
  | none => cases found
  | some array =>
    obtain ⟨_, present, same⟩ := Option.map_eq_some_iff.mp found
    cases same
    exact List.mem_of_getElem? present

end Find

namespace Making

variable {ρ κ : Type}

@[simp] def array? : Making ρ → Option ρ
  | .create => none
  | .ofCanMsg msg => some msg
  | .ofFields _ _ _ _ data => data

def map (f : ρ → κ) : Making ρ → Making κ
  | .create => .create
  | .ofCanMsg msg => .ofCanMsg (f msg)
  | .ofFields cmd crc size deviceId data => .ofFields cmd crc size deviceId (data.map f)

/-- With what the arrays are found to be; none where one is not there. -/
def resolve (find : ρ → Option κ) : Making ρ → Option (Making κ)
  | .create => some .create
  | .ofCanMsg msg => (find msg).map .ofCanMsg
  | .ofFields cmd crc size deviceId data => (data.mapM find).map (.ofFields cmd crc size deviceId)

def body : (kind : PacketKind) → Making Ref → Method (Receiver kind) Unit
  | _, .create => PacketObject.create
  | _, .ofCanMsg msg => PacketObject.ofCanMsg msg
  | .command, .ofFields cmd crc size deviceId data => CommandObject.ofFields cmd crc size deviceId data
  | .response, .ofFields cmd crc size deviceId data => ResponseObject.ofFields cmd crc size deviceId data

/-- The same on values. -/
def origin : Making (List UInt8) → Origin
  | .create => .create
  | .ofCanMsg bytes => .ofCanMsg { data := bytes }
  | .ofFields cmd crc size deviceId data => .ofFields cmd crc size deviceId data

theorem resolve_map (making : Making ℕ) (list : List ρ) (f : ρ → κ) :
    making.resolve ((list.map f)[·]?) = (making.resolve (list[·]?)).map (map f) := by
  cases making with
  | create => rfl
  | ofCanMsg msg => simp only [resolve, List.getElem?_map, Option.map_map, Function.comp_def, map]
  | ofFields cmd crc size deviceId data => simp only [resolve, mapM_map, Option.map_map, Function.comp_def, map]

theorem mem_of_resolve {making : Making ℕ} {list : List ρ} {found : Making ρ}
    (resolved : making.resolve (list[·]?) = some found) {r : ρ} (given : found.array? = some r) : r ∈ list := by
  cases making with
  | create =>
    cases resolved
    cases given
  | ofCanMsg msg =>
    obtain ⟨_, present, rfl⟩ := Option.map_eq_some_iff.mp resolved
    cases given
    exact List.mem_of_getElem? present
  | ofFields cmd crc size deviceId data =>
    obtain ⟨_, present, rfl⟩ := Option.map_eq_some_iff.mp resolved
    cases given
    exact mem_of_mapM present

theorem map_congr {making : Making ρ} {f g : ρ → κ} (same : ∀ r, making.array? = some r → f r = g r) :
    making.map f = making.map g := by
  cases making with
  | create => rfl
  | ofCanMsg msg => exact congrArg ofCanMsg (same msg rfl)
  | ofFields cmd crc size deviceId data => exact congrArg (ofFields cmd crc size deviceId) (Option.map_congr same)

end Making

namespace Setting

variable {ρ κ : Type}

@[simp] def array? : Setting ρ → Option ρ
  | .data value => value
  | _ => none

def map (f : ρ → κ) : Setting ρ → Setting κ
  | .cmd value => .cmd value
  | .crc value => .crc value
  | .size value => .size value
  | .deviceId value => .deviceId value
  | .data value => .data (value.map f)

def resolve (find : ρ → Option κ) : Setting ρ → Option (Setting κ)
  | .cmd value => some (.cmd value)
  | .crc value => some (.crc value)
  | .size value => some (.size value)
  | .deviceId value => some (.deviceId value)
  | .data value => (value.mapM find).map .data

def body : (kind : PacketKind) → Setting Ref → Method (Receiver kind) Unit
  | _, .cmd value => PacketObject.setCmd value
  | _, .crc value => PacketObject.setCrc value
  | _, .size value => PacketObject.setSize value
  | _, .deviceId value => PacketObject.setDeviceId value
  | .command, .data value => CommandObject.setData value
  | .response, .data value => ResponseObject.setData value

/-- The same on values. -/
def assignment : Setting (List UInt8) → Assignment
  | .cmd value => .cmd value
  | .crc value => .crc value
  | .size value => .size value
  | .deviceId value => .deviceId value
  | .data value => .data value

theorem resolve_map (setting : Setting ℕ) (list : List ρ) (f : ρ → κ) :
    setting.resolve ((list.map f)[·]?) = (setting.resolve (list[·]?)).map (map f) := by
  cases setting with
  | data value => simp only [resolve, mapM_map, Option.map_map, Function.comp_def, map]
  | _ => rfl

theorem mem_of_resolve {setting : Setting ℕ} {list : List ρ} {found : Setting ρ}
    (resolved : setting.resolve (list[·]?) = some found) {r : ρ} (given : found.array? = some r) : r ∈ list := by
  cases setting with
  | data value =>
    obtain ⟨_, present, rfl⟩ := Option.map_eq_some_iff.mp resolved
    cases given
    exact mem_of_mapM present
  | _ =>
    cases resolved
    cases given

end Setting

/-- What code does with arrays and packets. Its variables are numbered in the order in which they came up. -/
inductive PacketAction where
  | allocate (bytes : List UInt8)
  | write (array index : ℕ) (value : UInt8)
  | make (kind : PacketKind) (making : Making ℕ)
  | assign (packet : ℕ) (setting : Setting ℕ)
deriving DecidableEq, Repr

/-- The variables of the code, which hold references, and what these refer to. -/
structure PacketHeap where
  arrays : Arrays := {}
  outside : List Ref := []
  packets : List (Σ kind, PacketObject kind) := []

/-- The variables of the code where arrays and packets are values. -/
@[ext] structure PacketValues where
  arrays : List (List UInt8) := []
  packets : List (Σ kind, Packet kind) := []

namespace PacketHeap

/-- The exceptions are caught. -/
def machine : LabeledMachine PacketHeap PacketAction where
  step s
    | .allocate bytes =>
      some { s with arrays := s.arrays.allocate bytes, outside := s.outside ++ [s.arrays.next] }
    | .write array index value => do
      let array ← s.outside[array]?
      match assignElement (s.arrays.bytes array) index value with
      | .ok bytes => some { s with arrays := s.arrays.store array bytes }
      | .error _ => some s
    | .make kind making => do
      let making ← making.resolve (s.outside[·]?)
      match PacketObject.construct (making.body kind) s.arrays with
      | (.ok made, arrays) => some { s with arrays, packets := s.packets ++ [⟨kind, made⟩] }
      | (.error _, arrays) => some { s with arrays }
    | .assign packet setting => do
      let ⟨kind, this⟩ ← s.packets[packet]?
      let setting ← setting.resolve (s.outside[·]?)
      let after := (setting.body kind).after ⟨this, s.arrays⟩
      some { s with arrays := after.arrays, packets := s.packets.set packet ⟨kind, after.this⟩ }

/-- What the variables show. -/
def values (s : PacketHeap) : PacketValues :=
  ⟨s.outside.map s.arrays.bytes, s.packets.map fun object => ⟨object.1, object.2.value s.arrays⟩⟩

variable {s : PacketHeap}

@[simp] theorem values_arrays : s.values.arrays = s.outside.map s.arrays.bytes := rfl

@[simp] theorem values_packets :
    s.values.packets = s.packets.map fun object => ⟨object.1, object.2.value s.arrays⟩ := rfl

theorem step_write {array index : ℕ} {value : UInt8} {r : Ref} (found : s.outside[array]? = some r) :
    machine.step s (.write array index value) = match assignElement (s.arrays.bytes r) index value with
      | .ok bytes => some { s with arrays := s.arrays.store r bytes }
      | .error _ => some s := by
  simp [machine, found]

theorem step_make {making : Making ℕ} {found : Making Ref} (resolved : making.resolve (s.outside[·]?) = some found) :
    machine.step s (.make kind making) = match PacketObject.construct (found.body kind) s.arrays with
      | (.ok made, arrays) => some { s with arrays, packets := s.packets ++ [⟨kind, made⟩] }
      | (.error _, arrays) => some { s with arrays } := by
  simp [machine, resolved]

theorem step_assign {packet : ℕ} {setting : Setting ℕ} {this : PacketObject kind} {found : Setting Ref}
    (present : s.packets[packet]? = some ⟨kind, this⟩) (resolved : setting.resolve (s.outside[·]?) = some found) :
    machine.step s (.assign packet setting) =
      some { s with
        arrays := ((found.body kind).after ⟨this, s.arrays⟩).arrays
        packets := s.packets.set packet ⟨kind, ((found.body kind).after ⟨this, s.arrays⟩).this⟩ } := by
  simp [machine, present, resolved]

end PacketHeap

namespace PacketValues

def machine : LabeledMachine PacketValues PacketAction where
  step v
    | .allocate bytes => some { v with arrays := v.arrays ++ [bytes] }
    | .write array index value => do
      let bytes ← v.arrays[array]?
      match assignElement bytes index value with
      | .ok bytes => some { v with arrays := v.arrays.set array bytes }
      | .error _ => some v
    | .make kind making => do
      let making ← making.resolve (v.arrays[·]?)
      match making.origin.build kind with
      | .ok made => some { v with packets := v.packets ++ [⟨kind, made⟩] }
      | .error _ => some v
    | .assign packet setting => do
      let ⟨kind, this⟩ ← v.packets[packet]?
      let setting ← setting.resolve (v.arrays[·]?)
      some { v with packets := v.packets.set packet ⟨kind, (Packet.assign kind setting.assignment).after this⟩ }

variable {v : PacketValues}

theorem step_write {array index : ℕ} {value : UInt8} {bytes : List UInt8} (found : v.arrays[array]? = some bytes) :
    machine.step v (.write array index value) = match assignElement bytes index value with
      | .ok bytes => some { v with arrays := v.arrays.set array bytes }
      | .error _ => some v := by
  simp [machine, found]

theorem step_make {making : Making ℕ} {found : Making (List UInt8)}
    (resolved : making.resolve (v.arrays[·]?) = some found) :
    machine.step v (.make kind making) = match found.origin.build kind with
      | .ok made => some { v with packets := v.packets ++ [⟨kind, made⟩] }
      | .error _ => some v := by
  simp [machine, resolved]

theorem step_assign {packet : ℕ} {setting : Setting ℕ} {this : Packet kind} {found : Setting (List UInt8)}
    (present : v.packets[packet]? = some ⟨kind, this⟩) (resolved : setting.resolve (v.arrays[·]?) = some found) :
    machine.step v (.assign packet setting) =
      some { v with packets := v.packets.set packet ⟨kind, (Packet.assign kind found.assignment).after this⟩ } := by
  simp [machine, present, resolved]

end PacketValues

namespace FileUpdater

end FileUpdater

end OtaCli.Model
