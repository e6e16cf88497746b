import OtaCli.Machine.Interaction
import OtaCli.Model.KvaserInterface

/-! # Opening and closing the channel

`Init` and `Stop` are code over the driver, the console and the fields of the interface object. Each
driver call and each access to a field that the reader loops see too is one operation, so that the
steps of other threads can fall between them. What the driver answers is left open; the accesses to the
fields are a machine of their own, on the same tape.
-/

namespace OtaCli.Model

/-- An object put into the format of a line. -/
inductive Argument where
  | string (value : String)
  | int (value : Int32)
deriving DecidableEq, Repr

/-- What is handed to `Console.WriteLine`. -/
inductive Line where
  | text (value : String)
  | number (value : Int32)
  | format (format : String) (args : List Argument)
deriving DecidableEq, Repr

/-- The operations of a thread on the console, the driver and the interface object. -/
inductive Op where
  | writeLine (line : Line)
  | readKey
  | canInitializeLibrary
  | canGetNumberOfChannels
  | canGetChannelData (channel item : Int32)
  | canOpenChannel (channel flags : Int32)
  | canSetBusParams (handle freq tseg1 tseg2 sjw noSamp : Int32)
  | canBusOn (handle : Int32)
  | canBusOff (handle : Int32)
  | canClose (handle : Int32)
  | canGetErrorText (stat : CanStatus)
  | getInterfaces
  | addInterface (index : Int32) (name : String)
  | getHandle
  | setHandle (handle : Int32)
  | startReader
  | cancel
  | writeCmdMsgRsp (cmd : CommandPacket)
deriving DecidableEq

namespace Op

/-- What an operation is answered: its result and its out parameters. `ReadKey` throws where there is no console
to read from; which key it was does not matter. -/
abbrev Answer : Op → Type
  | canGetNumberOfChannels => CanStatus × Int32
  | canGetChannelData _ _ => CanStatus × String
  | canOpenChannel _ _ => Int32
  | canSetBusParams _ _ _ _ _ _ => CanStatus
  | canBusOn _ => CanStatus
  | canBusOff _ => CanStatus
  | canClose _ => CanStatus
  | canGetErrorText _ => String
  | getInterfaces => List (Int32 × String)
  | getHandle => Int32
  | writeCmdMsgRsp _ => Option ResponsePacket
  | readKey => Except Exception Unit
  | writeLine _ | canInitializeLibrary | addInterface _ _ | setHandle _ | startReader | cancel => Unit

end Op

/-- The code of one thread. -/
abbrev Code := Interaction Op.Answer Exception

abbrev Code.call (op : Op) : Code op.Answer := Interaction.call op

/-- An operation performed, with its answer. -/
abbrev Performed := Interaction.Answered Op.Answer

namespace KvaserInterface

open Code

def canOPEN_ACCEPT_VIRTUAL : Int32 := 0x0020
def canCHANNELDATA_DEVDESCR_ASCII : Int32 := 26

/-- `[{0}] {1}: failed, stat={2}` -/
def failed (cmd buf : String) (stat : CanStatus) : Line :=
  .format "[\x7b0\x7d] \x7b1\x7d: failed, stat=\x7b2\x7d" [.string cmd, .string buf, .int stat]

def checkForError (stat : CanStatus) (cmd : String) : Code Bool := do
  if stat = canOK then
    return false
  let buf ← call (.canGetErrorText stat)
  call (.writeLine (failed cmd buf stat))
  return true

/-- The `for` loop from channel `i` on, with the number of rounds that are left. -/
def listRounds : (rounds : ℕ) → (i : Int32) → Code Unit
  | 0, _ => pure ()
  | rounds + 1, i => do
    let (stat, deviceName) ← call (.canGetChannelData i canCHANNELDATA_DEVDESCR_ASCII)
    if ← checkForError stat "canGetChannelData" then
      return
    call (.addInterface i deviceName)
    listRounds rounds (i + 1)

def listChannels : Code Unit := do
  let (stat, numberOfChannels) ← call .canGetNumberOfChannels
  if ← checkForError stat "canGetNumberOfChannels" then
    return
  listRounds numberOfChannels.toInt.toNat 0

/-- `Init`. The results of `CheckForError` are dropped. -/
def init (chanelId baudRate : Int32) : Code Bool := do
  call .canInitializeLibrary
  listChannels
  let interfaces ← call .getInterfaces
  if (interfaces.find? fun x => x.1 = chanelId).isNone then
    return false
  let opened ← call (.canOpenChannel chanelId canOPEN_ACCEPT_VIRTUAL)
  call (.setHandle opened)
  let _ ← checkForError (← call .getHandle) "canOpenChannel"
  let status ← call (.canSetBusParams (← call .getHandle) baudRate 0 0 0 0)
  let _ ← checkForError status "canSetBusParams"
  let status ← call (.canBusOn (← call .getHandle))
  let _ ← checkForError status "canBusOn"
  call .startReader
  return true

def stop : Code Unit := do
  let status ← call (.canBusOff (← call .getHandle))
  let _ ← checkForError status "canBusOff"
  let status ← call (.canClose (← call .getHandle))
  let _ ← checkForError status "canClose"
  call .cancel

/-- The fields of a new object. `cancelled` is the state of `_cts`. -/
structure Fields where
  interfaces : List (Int32 × String) := []
  handle : Int32 := 0
  cancelled : Bool := false
deriving DecidableEq

/-- Accesses to the fields; the other operations leave them alone. -/
def Fields.step (o : Fields) : Performed → Option Fields
  | ⟨.getInterfaces, seen⟩ => if seen = o.interfaces then some o else none
  | ⟨.addInterface index name, _⟩ => some { o with interfaces := o.interfaces ++ [(index, name)] }
  | ⟨.getHandle, seen⟩ => if seen = o.handle then some o else none
  | ⟨.setHandle handle, _⟩ => some { o with handle }
  | ⟨.cancel, _⟩ => some { o with cancelled := true }
  | _ => some o

def Fields.machine : LabeledMachine Fields Performed := ⟨Fields.step⟩

end KvaserInterface

end OtaCli.Model
