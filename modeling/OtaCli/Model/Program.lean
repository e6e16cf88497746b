import OtaCli.Model.Lifecycle
import OtaCli.Model.FileUpdater

/-! # `Main`

The program opens the channel, lets an updater run, and closes the channel again. An updater reaches the
interface through `WriteCmdMsgRsp` alone, so its code is a `Client`; in the main thread each of its calls
is one operation. How the files are read is a parameter.
-/

namespace OtaCli.Model

open Code

/-- The parsed command line, with the defaults of the options. -/
structure CommandLineOptions where
  interface : Int32 := -1
  scan : Bool := false
  onlineMode : Bool := false
  targetDevice : UInt8 := 0
  binary : String := ""

structure TargetDevice where
  id : Option Int32
  currentVersion : Option String
  newVersionAvailable : Option Bool

namespace TargetDevice

/-- `ToString` of a `bool`. -/
def boolText (value : Bool) : String := if value then "True" else "False"

/-- `string.Concat`, to which null is the empty string. -/
def toText (device : TargetDevice) : String :=
  String.join ["Id: ", (device.id.map fun id => toString id.toInt).getD "", " ", "CurrentVersion: ",
    device.currentVersion.getD "", " ", "UpdateAvailable: ", (device.newVersionAvailable.map boolText).getD ""]

end TargetDevice

namespace KvaserInterface

def canBITRATE_500K : Int32 := -2

/-- `ScanForDevices`, which finds none. -/
def scanForDevices : List TargetDevice := []

end KvaserInterface

/-- An updater's code in the main thread. -/
def Client.toCode {α : Type} : Client α → Code α
  | .ret value => .ret value
  | .raise e => .raise e
  | .writeLine value next => .perform (.writeLine (.number value)) fun _ => next.toCode
  | .writeCmdMsgRsp cmd next => .perform (.writeCmdMsgRsp cmd) fun response => (next response).toCode

structure UpdaterInterface where
  update : (targetDeviceId : UInt8) → Client Bool
  verify : Client Bool

namespace OnlineUpdater

/-- `OnlineUpdater.Update`, which does nothing yet. -/
def update (_targetDeviceId : UInt8) : Client Bool := return true

def verify : Client Bool := return true

end OnlineUpdater

def FileUpdater.verify : Client Bool := return true

def onlineUpdater : UpdaterInterface := ⟨OnlineUpdater.update, OnlineUpdater.verify⟩

/-- The `FileUpdater` for what is at its path. -/
def fileUpdater (file : File) : UpdaterInterface := ⟨FileUpdater.update file, FileUpdater.verify⟩

namespace Program

def main (options : Option CommandLineOptions) (files : String → File) : Code Unit := do
  let some options := options
    | call (.writeLine (.text "Sorry bit something went wrong"))
  if !(← KvaserInterface.init options.interface KvaserInterface.canBITRATE_500K) then
    call (.writeLine (.text "sorry, but the selected device is not available"))
    call (.writeLine (.text "available devices are:"))
    let interfaces ← call .getInterfaces
    interfaces.forM fun kInterface =>
      call (.writeLine (.format "Found channel: \x7b0\x7d \x7b1\x7d"
        [.int kInterface.1, .string kInterface.2]))
    return
  if options.scan then
    call (.writeLine (.text "Scanning started, please wait..."))
    KvaserInterface.scanForDevices.forM fun device => call (.writeLine (.text device.toText))
    return
  let updater := if options.onlineMode then onlineUpdater else fileUpdater (files options.binary)
  let _ ← (updater.update options.targetDevice).toCode
  call (.writeLine (.text "upload complete"))
  let _ ← updater.verify.toCode
  call (.writeLine (.text "waiting for key"))
  Interaction.ended (← call .readKey)
  KvaserInterface.stop
  call (.writeLine (.text "Program End"))

end Program

end OtaCli.Model
