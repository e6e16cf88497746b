import OtaCli.Model.Client
import OtaCli.Machine.Run

/-! # The two threads of the CAN interface

The thread that calls `WriteCmdMsgRsp` and the thread that runs `ReviverLoop` share one field,
`_responsePacket`. Every driver call and every access to that field is one step; the labels carry
what the driver, the cancellation token and the bus answer, so the environment is unconstrained.
The first thread runs any `Client`, hence any sequence of calls.
-/

namespace OtaCli.Model

/-- `Canlib.canStatus` as the integer it is. -/
abbrev CanStatus := Int32

def canOK : CanStatus := 0

/-- The status and the out parameters of one `canRead` into `new byte[8]`. -/
structure ReadResult where
  status : CanStatus
  id : Int32
  data : Vector UInt8 8
  dlc : Int32
  flags : Int32
  timestamp : Int64
deriving DecidableEq, Repr

/-- `new CanMsg(id, dlc, data, flags, timestamp)`. -/
def ReadResult.toCanMsg (r : ReadResult) : CanMsg where
  id := r.id
  dlc := r.dlc
  flags := r.flags
  data := r.data.toList
  timestamp := r.timestamp

/-- The reader takes the frame for a response. Only the identifier is examined. -/
def ReadResult.IsResponse (r : ReadResult) : Prop := r.status = canOK ∧ r.id = 0x7d2

instance (r : ReadResult) : Decidable r.IsResponse := inferInstanceAs (Decidable (_ ∧ _))

/-- Where `ReviverLoop` stands. -/
inductive ReaderPc where
  | check
  | read
  | store (packet : ResponsePacket)
  | ended
  | crashed (e : Exception)

namespace ReviverLoop

/-- `if (token.IsCancellationRequested) break;` -/
def afterCheck (cancelled : Bool) : ReaderPc := if cancelled then .ended else .read

/-- From `canRead` to the store, or back to the top of the loop. -/
def afterRead (r : ReadResult) : ReaderPc :=
  if r.status ≠ canOK then .check
  else if r.id = 0x7d2 then
    match Packet.ofCanMsg r.toCanMsg with
    | .ok packet => .store packet
    | .error e => .crashed e
  else .check

end ReviverLoop

/-- An activation of `WriteCmdMsgRsp` with the code to go on with. -/
structure Call (α : Type) where
  cmd : CommandPacket
  next : Option ResponsePacket → Client α

/-- Where the calling thread stands: in the client's code, or in one of the statements of
`WriteCmdMsgRsp` after its `canWrite`. -/
inductive SenderPc (α : Type) where
  | client (rest : Client α)
  | writeSync (call : Call α)
  | loopTest (call : Call α) (response : Option ResponsePacket)
  | loopBody (call : Call α)
  | clear (call : Call α) (response : Option ResponsePacket)

structure KvaserState (α : Type) where
  responsePacket : Option ResponsePacket
  sender : SenderPc α
  reader : ReaderPc

inductive Event where
  | writeLine (value : Int32)
  | canWrite (cmd : CommandPacket) (status : CanStatus)
  | canWriteSync (status : CanStatus)
  | loopTest (seen : Option ResponsePacket)
  | loopBody (seen : Option ResponsePacket)
  | clear (returned : Option ResponsePacket)
  | isCancellationRequested (cancelled : Bool)
  | canRead (result : ReadResult)
  | store (packet : ResponsePacket)

namespace KvaserInterface

variable {α : Type}

/-- The interface after `Init`, with a client about to run. -/
def start (client : Client α) : KvaserState α := ⟨none, .client client, .check⟩

/-- One atomic step of either thread. `WriteMsg` hands the status of `canWrite` to `CheckForError`,
which reports it and whose result is dropped, so the status does not reach the next state. -/
def step (s : KvaserState α) : Event → Option (KvaserState α)
  | .writeLine value =>
    match s.sender with
    | .client (.writeLine printed next) =>
      if printed = value then some { s with sender := .client next } else none
    | _ => none
  | .canWrite cmd _ =>
    match s.sender with
    | .client (.writeCmdMsgRsp called next) =>
      if called = cmd then some { s with sender := .writeSync ⟨called, next⟩ } else none
    | _ => none
  | .canWriteSync _ =>
    match s.sender with
    | .writeSync call => some { s with sender := .loopTest call none }
    | _ => none
  | .loopTest seen =>
    match s.sender with
    | .loopTest call response =>
      if s.responsePacket = seen then
        some { s with sender := if seen = none then .loopBody call else .clear call response }
      else none
    | _ => none
  | .loopBody seen =>
    match s.sender with
    | .loopBody call =>
      if s.responsePacket = seen then some { s with sender := .loopTest call seen } else none
    | _ => none
  | .clear returned =>
    match s.sender with
    | .clear call response =>
      if response = returned then
        some { s with responsePacket := none, sender := .client (call.next response) }
      else none
    | _ => none
  | .isCancellationRequested cancelled =>
    match s.reader with
    | .check => some { s with reader := ReviverLoop.afterCheck cancelled }
    | _ => none
  | .canRead result =>
    match s.reader with
    | .read => some { s with reader := ReviverLoop.afterRead result }
    | _ => none
  | .store packet =>
    match s.reader with
    | .store parsed =>
      if parsed = packet then some { s with responsePacket := some parsed, reader := .check } else none
    | _ => none

/-- The interface in an arbitrary environment. -/
def machine (α : Type) : LabeledMachine (KvaserState α) Event := ⟨step⟩

/-- The same steps as rules: each says where its thread stands before and after. -/
inductive Step : KvaserState α → Event → KvaserState α → Prop
  | writeLine {slot reader value next} :
      Step ⟨slot, .client (.writeLine value next), reader⟩ (.writeLine value)
        ⟨slot, .client next, reader⟩
  | canWrite {slot reader cmd next} (status : CanStatus) :
      Step ⟨slot, .client (.writeCmdMsgRsp cmd next), reader⟩ (.canWrite cmd status)
        ⟨slot, .writeSync ⟨cmd, next⟩, reader⟩
  | canWriteSync {slot reader call} (status : CanStatus) :
      Step ⟨slot, .writeSync call, reader⟩ (.canWriteSync status) ⟨slot, .loopTest call none, reader⟩
  | loopAgain {reader call response} :
      Step ⟨none, .loopTest call response, reader⟩ (.loopTest none) ⟨none, .loopBody call, reader⟩
  | loopExit {reader call response packet} :
      Step ⟨some packet, .loopTest call response, reader⟩ (.loopTest (some packet))
        ⟨some packet, .clear call response, reader⟩
  | loopBody {slot reader call} :
      Step ⟨slot, .loopBody call, reader⟩ (.loopBody slot) ⟨slot, .loopTest call slot, reader⟩
  | clear {slot reader call response} :
      Step ⟨slot, .clear call response, reader⟩ (.clear response)
        ⟨none, .client (call.next response), reader⟩
  | isCancellationRequested {slot sender} (cancelled : Bool) :
      Step ⟨slot, sender, .check⟩ (.isCancellationRequested cancelled)
        ⟨slot, sender, ReviverLoop.afterCheck cancelled⟩
  | canRead {slot sender} (result : ReadResult) :
      Step ⟨slot, sender, .read⟩ (.canRead result) ⟨slot, sender, ReviverLoop.afterRead result⟩
  | store {slot sender packet} :
      Step ⟨slot, sender, .store packet⟩ (.store packet) ⟨some packet, sender, .check⟩

theorem step_eq_some_iff {s t : KvaserState α} {e : Event} :
    (machine α).step s e = some t ↔ Step s e t := by
  constructor
  · intro stepped
    rcases s with ⟨slot, sender, reader⟩
    cases e with
    | writeLine value =>
      match sender, stepped with
      | .client (.writeLine printed next), stepped =>
        obtain ⟨rfl, moved⟩ := Option.ite_none_right_eq_some.mp stepped
        cases moved
        exact .writeLine
    | canWrite cmd status =>
      match sender, stepped with
      | .client (.writeCmdMsgRsp called next), stepped =>
        obtain ⟨rfl, moved⟩ := Option.ite_none_right_eq_some.mp stepped
        cases moved
        exact .canWrite status
    | canWriteSync status =>
      match sender, stepped with
      | .writeSync call, stepped => cases stepped; exact .canWriteSync status
    | loopTest seen =>
      match sender, stepped with
      | .loopTest call response, stepped =>
        obtain ⟨rfl, moved⟩ := Option.ite_none_right_eq_some.mp stepped
        cases moved
        cases slot with
        | none => exact .loopAgain
        | some packet => exact .loopExit
    | loopBody seen =>
      match sender, stepped with
      | .loopBody call, stepped =>
        obtain ⟨rfl, moved⟩ := Option.ite_none_right_eq_some.mp stepped
        cases moved
        exact .loopBody
    | clear returned =>
      match sender, stepped with
      | .clear call response, stepped =>
        obtain ⟨rfl, moved⟩ := Option.ite_none_right_eq_some.mp stepped
        cases moved
        exact .clear
    | isCancellationRequested cancelled =>
      match reader, stepped with
      | .check, stepped => cases stepped; exact .isCancellationRequested cancelled
    | canRead result =>
      match reader, stepped with
      | .read, stepped => cases stepped; exact .canRead result
    | store packet =>
      match reader, stepped with
      | .store parsed, stepped =>
        obtain ⟨rfl, moved⟩ := Option.ite_none_right_eq_some.mp stepped
        cases moved
        exact .store
  · intro stepped
    cases stepped <;> simp [machine, step]

/-- A run beginning with a step of the rules. -/
theorem Step.cons {s t u : KvaserState α} {e : Event} {events : List Event} (stepped : Step s e t)
    (rest : (machine α).Run t events u) : (machine α).Run s (e :: events) u :=
  LabeledMachine.Run.cons_iff.mpr ⟨t, step_eq_some_iff.mpr stepped, rest⟩

end KvaserInterface

end OtaCli.Model
