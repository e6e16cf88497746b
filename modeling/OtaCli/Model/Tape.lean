import OtaCli.Model.KvaserInterface
import OtaCli.Model.PacketFields
import Mathlib.Data.List.DropRight

/-! # What a tape of events records

The state of the interface keeps no history. What was written, received, stored, observed and
returned is read off the tape, in the order in which it happened.
-/

namespace OtaCli.Model

/-- The packet which the constructor makes of a received frame. -/
def ReadResult.parsed (r : ReadResult) : ResponsePacket :=
  (PacketFields.decode r.data).toPacket .response

theorem ReadResult.ofCanMsg_toCanMsg (r : ReadResult) : Packet.ofCanMsg r.toCanMsg = .ok r.parsed :=
  Packet.ofCanMsg_eq r.toCanMsg r.data rfl

/-- The packet the reader has parsed and not yet stored. -/
def ReaderPc.held : ReaderPc → Option ResponsePacket
  | .store packet => some packet
  | _ => none

@[simp] theorem ReaderPc.held_check : held .check = none := rfl

@[simp] theorem ReaderPc.held_read : held .read = none := rfl

@[simp] theorem ReaderPc.held_store (packet : ResponsePacket) : held (.store packet) = some packet := rfl

/-- The reader's eight-byte buffer always parses, so a read never ends the thread. -/
theorem ReviverLoop.afterRead_eq (r : ReadResult) :
    afterRead r = if r.IsResponse then .store r.parsed else .check := by
  simp only [afterRead, ReadResult.IsResponse, r.ofCanMsg_toCanMsg]
  split_ifs <;> simp_all

@[simp] theorem ReviverLoop.held_afterRead (r : ReadResult) :
    (afterRead r).held = if r.IsResponse then some r.parsed else none := by
  rw [afterRead_eq]
  split <;> rfl

@[simp] theorem ReviverLoop.held_afterCheck (cancelled : Bool) : (afterCheck cancelled).held = none := by
  cases cancelled <;> rfl

namespace SenderPc

variable {α : Type}

/-- The call that is under way. -/
def call? : SenderPc α → Option (Call α)
  | .client _ => none
  | .writeSync call | .loopTest call _ | .loopBody call | .clear call _ => some call

/-- The call that has not left its wait loop. -/
def waiting? : SenderPc α → Option (Call α)
  | .client _ | .clear _ _ => none
  | .writeSync call | .loopTest call _ | .loopBody call => some call

theorem call_of_waiting {sender : SenderPc α} (waiting : sender.waiting? ≠ none) :
    sender.call? ≠ none := by
  cases sender <;> simp_all [call?, waiting?]

end SenderPc

namespace Event

/-- The command handed to `canWrite`, whatever the status. -/
@[simp] def written? : Event → Option CommandPacket
  | .canWrite cmd _ => some cmd
  | _ => none

@[simp] def status? : Event → Option CanStatus
  | .canWrite _ status => some status
  | _ => none

/-- The number written to the console. -/
@[simp] def printed? : Event → Option Int32
  | .writeLine value => some value
  | _ => none

/-- A frame which the reader takes for a response. -/
@[simp] def received? : Event → Option ReadResult
  | .canRead result => if result.IsResponse then some result else none
  | _ => none

@[simp] def stored? : Event → Option ResponsePacket
  | .store packet => some packet
  | _ => none

/-- The packet whose observation ends a wait loop. -/
@[simp] def observed? : Event → Option ResponsePacket
  | .loopTest seen => seen
  | _ => none

/-- What a call that is complete has returned. -/
@[simp] def returned? : Event → Option (Option ResponsePacket)
  | .clear returned => some returned
  | _ => none

end Event

variable (events : List Event)

def written : List CommandPacket := events.filterMap Event.written?

def printed : List Int32 := events.filterMap Event.printed?

def received : List ReadResult := events.filterMap Event.received?

def stored : List ResponsePacket := events.filterMap Event.stored?

def observed : List ResponsePacket := events.filterMap Event.observed?

def returned : List (Option ResponsePacket) := events.filterMap Event.returned?

/-- The events after the last `canWrite`. -/
def sinceWrite : List Event := events.rtakeWhile fun event => event.written?.isNone

/-- The status of the last `canWrite`. -/
def lastStatus : Option CanStatus := (events.filterMap Event.status?).getLast?

/-- A frame was handed to `canWrite` in vain. -/
def FailedWrite : Prop := ∃ cmd status, Event.canWrite cmd status ∈ events ∧ status ≠ canOK

section Lemmas

open LabeledMachine

variable {events} (event : Event)

@[simp] theorem written_nil : written [] = [] := rfl

@[simp] theorem received_nil : received [] = [] := rfl

@[simp] theorem observed_nil : observed [] = [] := rfl

@[simp] theorem written_concat : written (events ++ [event]) = written events ++ event.written?.toList :=
  filterMap_concat _ events event

@[simp] theorem printed_concat : printed (events ++ [event]) = printed events ++ event.printed?.toList :=
  filterMap_concat _ events event

@[simp] theorem received_concat :
    received (events ++ [event]) = received events ++ event.received?.toList :=
  filterMap_concat _ events event

@[simp] theorem stored_concat : stored (events ++ [event]) = stored events ++ event.stored?.toList :=
  filterMap_concat _ events event

@[simp] theorem observed_concat :
    observed (events ++ [event]) = observed events ++ event.observed?.toList :=
  filterMap_concat _ events event

@[simp] theorem returned_concat :
    returned (events ++ [event]) = returned events ++ event.returned?.toList :=
  filterMap_concat _ events event

@[simp] theorem sinceWrite_concat : sinceWrite (events ++ [event]) =
    if event.written?.isNone then sinceWrite events ++ [event] else [] := by
  simp [sinceWrite, List.rtakeWhile_concat]

@[simp] theorem lastStatus_concat :
    lastStatus (events ++ [event]) = event.status?.or (lastStatus events) := by
  rw [lastStatus, filterMap_concat]
  cases event.status? <;> simp [lastStatus]

theorem sinceWrite_suffix (events : List Event) : sinceWrite events <:+ events :=
  List.rtakeWhile_suffix _ _

end Lemmas

end OtaCli.Model
