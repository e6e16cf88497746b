import OtaCli.Model.Client
import OtaCli.Model.PacketFields
import OtaCli.ToMathlib.ListChunks

/-! # Flashing a file

`update` is the method body, statement by statement. `flashTranscript` says what it comes to: no
answer changes what is sent, a file that cannot be read sends nothing, and a file whose length is
not a multiple of four ends in an exception after its last full chunk.
-/

namespace OtaCli.Model

namespace Commands

def FLASH_BEGIN : UInt8 := 0x02
def FLASH_DATA : UInt8 := 0x03
def FLASH_END : UInt8 := 0x04

end Commands

/-- What opening and reading the file at a path yields. -/
abbrev File := Except Exception (List UInt8)

namespace FileUpdater

/-- `Array.MaxLength`, for arrays of bytes. -/
def maxLength : ℕ := 0x7fffffc7

/-- `File.ReadAllBytes`, which refuses what no array can hold. -/
def fileToByteArray (file : File) : Except Exception (List UInt8) := do
  let content ← file
  if content.length > maxLength then
    throw (.io "The file is too long.")
  return content

theorem fileToByteArray_eq_ok_iff {file : File} {content : List UInt8} :
    fileToByteArray file = .ok content ↔ file = .ok content ∧ content.length ≤ maxLength := by
  cases file with
  | error e => simp [fileToByteArray, bind, Except.bind]
  | ok bytes =>
    by_cases long : bytes.length > maxLength
    · have thrown : fileToByteArray (.ok bytes) = .error (.io "The file is too long.") := if_pos long
      simp only [thrown, reduceCtorEq, Except.ok.injEq, false_iff, not_and, Nat.not_le]
      rintro rfl
      exact long
    · have returned : fileToByteArray (.ok bytes) = .ok bytes := if_neg long
      simp only [returned, Except.ok.injEq, iff_self_and]
      rintro rfl
      exact Nat.not_lt.mp long

/-- `BitConverter.GetBytes(int)` on a little-endian host. -/
def getBytes (value : Int32) : List UInt8 :=
  [value.toUInt32.toUInt8, (value.toUInt32 >>> 8).toUInt8, (value.toUInt32 >>> 16).toUInt8,
    (value.toUInt32 >>> 24).toUInt8]

/-- `int` division, with its two exceptions. -/
def divide (dividend divisor : Int32) : Except Exception Int32 :=
  if divisor = 0 then throw .divideByZero
  else if dividend = Int32.minValue ∧ divisor = -1 then throw .overflow
  else return dividend / divisor

/-- `[msc, bytese[0], bytese[1], bytese[2], bytese[3]]`. -/
def dataBytes (msc : UInt8) (bytese : List UInt8) : Except Exception (List UInt8) := do
  return [msc, ← element bytese 0, ← element bytese 1, ← element bytese 2, ← element bytese 3]

/-- The `foreach` over the chunks that are left. -/
def updateLoop (targetDeviceId : UInt8) (count : Int32) :
    (chunks : List (List UInt8)) → (msc : UInt8) → (i : Int32) → Client Unit
  | [], _, _ => pure ()
  | bytese :: chunks, msc, i => do
    Client.print (← divide (i * 100) count)
    let data ← dataBytes msc bytese
    let cmd ← CommandPacket.ofFields Commands.FLASH_DATA 0 bytese.length.toUInt8 targetDeviceId data
    let _rspWrt ← Client.call cmd
    updateLoop targetDeviceId count chunks (if msc = 255 then 0 else msc + 1) (i + 1)

/-- `FileUpdater.Update`. -/
def update (file : File) (targetDeviceId : UInt8) : Client Bool := do
  let dataBytes ← fileToByteArray file
  let chunkedArray := dataBytes.toChunks 4
  let lentBytes := getBytes (Int32.ofNat dataBytes.length)
  if lentBytes.length > 4 then
    return false
  let _rspStart ← Client.call
    (← CommandPacket.ofFields Commands.FLASH_BEGIN 0 4 targetDeviceId (some lentBytes))
  updateLoop targetDeviceId (Int32.ofNat chunkedArray.length) chunkedArray 0 0
  let _rspEnd ← Client.call
    (← CommandPacket.ofFields Commands.FLASH_END 0 4 targetDeviceId (some lentBytes))
  return true

/-- The packet built by `CommandPacket(cmd, 0, size, targetDeviceId, data)` from a short array. -/
def packetFields (cmd size targetDeviceId : UInt8) (data : List UInt8) : PacketFields :=
  (⟨cmd, 0, size, targetDeviceId, Vector.replicate 5 0⟩ : PacketFields).storeData data

def lengthPacket (cmd targetDeviceId : UInt8) (length : ℕ) : CommandPacket :=
  (packetFields cmd 4 targetDeviceId (getBytes (Int32.ofNat length))).toPacket .command

def dataPacket (targetDeviceId : UInt8) (counter : ℕ) (chunk : List UInt8) : CommandPacket :=
  (packetFields Commands.FLASH_DATA chunk.length.toUInt8 targetDeviceId
    (UInt8.ofNat counter :: chunk)).toPacket .command

/-- The data packets for consecutive full chunks, the first one numbered `counter`. -/
def dataPackets (targetDeviceId : UInt8) (counter : ℕ) (chunks : List (List UInt8)) :
    List CommandPacket :=
  (chunks.zipIdx counter).map fun (chunk, k) => dataPacket targetDeviceId k chunk

/-- The number printed before chunk `i`. -/
def progress (count : ℕ) (i : ℕ) : Int32 := Int32.ofNat i * 100 / Int32.ofNat count

/-- The full chunks of a file. -/
def fullChunks (content : List UInt8) : List (List UInt8) :=
  (content.take (4 * (content.length / 4))).toChunks 4

/-- Everything `Update` does with a readable file. -/
def flashTranscript (content : List UInt8) (targetDeviceId : UInt8) : Transcript Bool where
  commands :=
    lengthPacket Commands.FLASH_BEGIN targetDeviceId content.length ::
      (dataPackets targetDeviceId 0 (fullChunks content) ++
        if 4 ∣ content.length then
          [lengthPacket Commands.FLASH_END targetDeviceId content.length]
        else [])
  printed := (List.range (content.toChunks 4).length).map (progress (content.toChunks 4).length)
  result := if 4 ∣ content.length then .ok true else .error .indexOutOfRange

end FileUpdater

end OtaCli.Model
