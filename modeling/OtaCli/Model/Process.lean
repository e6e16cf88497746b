import OtaCli.Model.Lifetime
import OtaCli.Model.LifecycleTape
import OtaCli.Model.Program
import OtaCli.Model.Tape

/-! # The whole process

The main thread runs its code, and `WriteCmdMsgRsp` statement by statement; beside it run the reader loops
which `Init` has started. Every driver call and every access to the shared fields is one step. The process has
ended when all threads have; an exception that leaves a thread ends it at once.

Three views of a tape tell the same story to the models of the parts: the interface sees what the threads do
in `WriteCmdMsgRsp` and in `ReviverLoop`, the code sees its own operations, with each call as one of them.
-/

namespace OtaCli.Model

namespace Process

open KvaserInterface Lifetime

/-- An activation of `WriteCmdMsgRsp` in the main thread, with the code to go on with. -/
structure Activation where
  cmd : CommandPacket
  next : Option ResponsePacket → Code Unit

/-- Where the main thread stands: before an operation of its code, or in a statement of `WriteCmdMsgRsp`
after its `canWrite`. -/
inductive MainPc where
  | code (rest : Code Unit)
  | checkWrite (call : Activation) (rest : Code Bool)
  | writeSync (call : Activation)
  | checkWriteSync (call : Activation) (rest : Code Bool)
  | loopTest (call : Activation) (response : Option ResponsePacket)
  | loopBody (call : Activation)
  | clear (call : Activation) (response : Option ResponsePacket)

namespace MainPc

/-- In or after `CheckForError(status, "canWrite")`. -/
def wrote (call : Activation) : Code Bool → MainPc
  | .ret _ => .writeSync call
  | rest => .checkWrite call rest

/-- In or after `CheckForError(status, "canWriteSync")`. -/
def synced (call : Activation) : Code Bool → MainPc
  | .ret _ => .loopTest call none
  | rest => .checkWriteSync call rest

/-- An exception has left the thread. -/
def hasRaised : MainPc → Bool
  | .code (.raise _) => true
  | _ => false

end MainPc

/-- The reader loops stand in the order in which they were started. -/
structure State where
  main : MainPc
  fields : Fields
  responsePacket : Option ResponsePacket
  readers : List ReaderPc

/-- The process with its main thread about to run. -/
def new (code : Code Unit) : State := ⟨.code code, {}, none, []⟩

inductive Event where
  /-- An operation of the code, other than a call of `WriteCmdMsgRsp`. -/
  | main (event : Performed)
  | canWrite (handle : Int32) (cmd : CommandPacket) (status : CanStatus)
  | canWriteSync (handle timeout : Int32) (status : CanStatus)
  /-- An operation of `CheckForError` in `WriteMsg`. -/
  | report (event : Performed)
  | loopTest (seen : Option ResponsePacket)
  | loopBody (seen : Option ResponsePacket)
  /-- The call clears the slot and returns. -/
  | clear (cmd : CommandPacket) (returned : Option ResponsePacket)
  | reader (i : ℕ) (event : ReaderEvent)

def isCall : Op → Bool
  | .writeCmdMsgRsp _ => true
  | _ => false

/-- In milliseconds. -/
def canTimeout : Int32 := 1000

def isCrashed : ReaderPc → Bool
  | .crashed _ => true
  | _ => false

/-- An exception was not handled. -/
def State.crashed (s : State) : Bool := s.main.hasRaised || s.readers.any isCrashed

/-- One atomic step of a thread, while the process is there. -/
def move (s : State) : Event → Option State
  | .main event =>
    match s.main with
    | .code rest => do
      let next ← (if isCall event.1 then none else Interaction.step rest event)
      let fields ← s.fields.step event
      return { s with main := .code next, fields, readers := startReader s.readers event.1 }
    | _ => none
  | .canWrite handle cmd status =>
    match s.main with
    | .code (.perform (.writeCmdMsgRsp called) next) =>
      if called = cmd ∧ s.fields.handle = handle then
        some { s with main := .wrote ⟨called, next⟩ (checkForError status "canWrite") }
      else none
    | _ => none
  | .canWriteSync handle timeout status =>
    match s.main with
    | .writeSync call =>
      if s.fields.handle = handle ∧ timeout = canTimeout then
        some { s with main := .synced call (checkForError status "canWriteSync") }
      else none
    | _ => none
  | .report event =>
    match s.main with
    | .checkWrite call rest => (Interaction.step rest event).map fun next => { s with main := .wrote call next }
    | .checkWriteSync call rest =>
      (Interaction.step rest event).map fun next => { s with main := .synced call next }
    | _ => none
  | .loopTest seen =>
    match s.main with
    | .loopTest call response =>
      if s.responsePacket = seen then
        some { s with main := if seen = none then .loopBody call else .clear call response }
      else none
    | _ => none
  | .loopBody seen =>
    match s.main with
    | .loopBody call =>
      if s.responsePacket = seen then some { s with main := .loopTest call seen } else none
    | _ => none
  | .clear cmd returned =>
    match s.main with
    | .clear call response =>
      if call.cmd = cmd ∧ response = returned then
        some { s with responsePacket := none, main := .code (call.next response) }
      else none
    | _ => none
  | .reader i event => do
    let reader ← s.readers[i]?
    let moved ← readerStep s.fields reader event
    return { s with
      responsePacket := storeResponse s.responsePacket event, readers := s.readers.set i moved }

def step (s : State) (event : Event) : Option State := if s.crashed then none else move s event

def machine : LabeledMachine State Event := ⟨step⟩

/-- The same steps as rules, for a process that is there. -/
inductive Step : State → Event → State → Prop
  | main {o o' slot readers event} {rest next : Code Unit} (own : isCall event.1 = false)
      (moves : (Interaction.machine _ _ _).step rest event = some next) (acts : o.step event = some o') :
      Step ⟨.code rest, o, slot, readers⟩ (.main event)
        ⟨.code next, o', slot, startReader readers event.1⟩
  | canWrite {o slot readers cmd next} (status : CanStatus) :
      Step ⟨.code (.perform (.writeCmdMsgRsp cmd) next), o, slot, readers⟩ (.canWrite o.handle cmd status)
        ⟨.wrote ⟨cmd, next⟩ (checkForError status "canWrite"), o, slot, readers⟩
  | canWriteSync {o slot readers call} (status : CanStatus) :
      Step ⟨.writeSync call, o, slot, readers⟩ (.canWriteSync o.handle canTimeout status)
        ⟨.synced call (checkForError status "canWriteSync"), o, slot, readers⟩
  | reportWrite {o slot readers call event} {rest next : Code Bool}
      (moves : (Interaction.machine _ _ _).step rest event = some next) :
      Step ⟨.checkWrite call rest, o, slot, readers⟩ (.report event) ⟨.wrote call next, o, slot, readers⟩
  | reportSync {o slot readers call event} {rest next : Code Bool}
      (moves : (Interaction.machine _ _ _).step rest event = some next) :
      Step ⟨.checkWriteSync call rest, o, slot, readers⟩ (.report event)
        ⟨.synced call next, o, slot, readers⟩
  | loopAgain {o readers call response} :
      Step ⟨.loopTest call response, o, none, readers⟩ (.loopTest none) ⟨.loopBody call, o, none, readers⟩
  | loopExit {o readers call response packet} :
      Step ⟨.loopTest call response, o, some packet, readers⟩ (.loopTest (some packet))
        ⟨.clear call response, o, some packet, readers⟩
  | loopBody {o slot readers call} :
      Step ⟨.loopBody call, o, slot, readers⟩ (.loopBody slot) ⟨.loopTest call slot, o, slot, readers⟩
  | clear {o slot readers call response} :
      Step ⟨.clear call response, o, slot, readers⟩ (.clear call.cmd response)
        ⟨.code (call.next response), o, none, readers⟩
  | reader {main o slot readers i event reader moved} (stands : readers[i]? = some reader)
      (moves : readerStep o reader event = some moved) :
      Step ⟨main, o, slot, readers⟩ (.reader i event)
        ⟨main, o, storeResponse slot event, readers.set i moved⟩

variable {s t : State} {event : Event}

theorem move_eq_some_iff : move s event = some t ↔ Step s event t := by
  constructor
  · intro moved
    rcases s with ⟨main, o, slot, readers⟩
    cases event with
    | main event =>
      match main, moved with
      | .code rest, moved =>
        obtain ⟨next, inner, rest'⟩ := Option.bind_eq_some_iff.mp moved
        obtain ⟨o', acts, same⟩ := Option.bind_eq_some_iff.mp rest'
        cases same
        obtain ⟨own, moves⟩ := Option.ite_none_left_eq_some.mp inner
        exact .main (by simpa using own) moves acts
    | canWrite handle cmd status =>
      match main, moved with
      | .code (.perform (.writeCmdMsgRsp called) next), moved =>
        obtain ⟨⟨rfl, rfl⟩, same⟩ := Option.ite_none_right_eq_some.mp moved
        cases same
        exact .canWrite status
    | canWriteSync handle timeout status =>
      match main, moved with
      | .writeSync call, moved =>
        obtain ⟨⟨rfl, rfl⟩, same⟩ := Option.ite_none_right_eq_some.mp moved
        cases same
        exact .canWriteSync status
    | report event =>
      match main, moved with
      | .checkWrite call rest, moved =>
        obtain ⟨next, moves, rfl⟩ := Option.map_eq_some_iff.mp moved
        exact .reportWrite moves
      | .checkWriteSync call rest, moved =>
        obtain ⟨next, moves, rfl⟩ := Option.map_eq_some_iff.mp moved
        exact .reportSync moves
    | loopTest seen =>
      match main, moved with
      | .loopTest call response, moved =>
        obtain ⟨rfl, same⟩ := Option.ite_none_right_eq_some.mp moved
        cases same
        cases slot with
        | none => exact .loopAgain
        | some packet => exact .loopExit
    | loopBody seen =>
      match main, moved with
      | .loopBody call, moved =>
        obtain ⟨rfl, same⟩ := Option.ite_none_right_eq_some.mp moved
        cases same
        exact .loopBody
    | clear cmd returned =>
      match main, moved with
      | .clear call response, moved =>
        obtain ⟨⟨rfl, rfl⟩, same⟩ := Option.ite_none_right_eq_some.mp moved
        cases same
        exact .clear
    | reader i event =>
      obtain ⟨reader, stands, rest⟩ := Option.bind_eq_some_iff.mp moved
      obtain ⟨moved, moves, same⟩ := Option.bind_eq_some_iff.mp rest
      cases same
      exact .reader stands moves
  · intro stepped
    cases stepped <;> simp_all [move, Interaction.machine]

/-- A process moves by the rules until an exception has ended it. -/
theorem step_eq_some_iff : machine.step s event = some t ↔ s.crashed = false ∧ Step s event t := by
  change (if s.crashed then none else move s event) = some t ↔ _
  rw [Option.ite_none_left_eq_some, move_eq_some_iff, Bool.not_eq_true]

theorem Step.cons {next : State} {rest : List Event} (stepped : Step s event next)
    (sound : s.crashed = false) (run : machine.Run next rest t) : machine.Run s (event :: rest) t :=
  LabeledMachine.Run.cons_iff.mpr ⟨next, step_eq_some_iff.mpr ⟨sound, stepped⟩, run⟩

namespace Event

/-- What the interface sees: numbers on the console, the frames, and the accesses to the slot. -/
@[simp] def interface? : Event → Option Model.Event
  | .main ⟨.writeLine (.number value), _⟩ => some (.writeLine value)
  | .canWrite _ cmd status => some (.canWrite cmd status)
  | .canWriteSync _ _ status => some (.canWriteSync status)
  | .loopTest seen => some (.loopTest seen)
  | .loopBody seen => some (.loopBody seen)
  | .clear _ returned => some (.clear returned)
  | .reader _ (.isCancellationRequested cancelled) => some (.isCancellationRequested cancelled)
  | .reader _ (.canRead _ result) => some (.canRead result)
  | .reader _ (.store packet) => some (.store packet)
  | _ => none

/-- What the code sees: its operations, with a call when it has returned. -/
@[simp] def performed? : Event → Option Performed
  | .main event => some event
  | .clear cmd returned => some ⟨.writeCmdMsgRsp cmd, returned⟩
  | _ => none

end Event

/-- The events of a tape in which the interface takes part. -/
def interfaceEvents (tape : List Event) : List Model.Event := tape.filterMap Event.interface?

/-- The operations of the main thread's code in a tape. -/
def performed (tape : List Event) : List Performed := tape.filterMap Event.performed?

section Readings

variable (tape : List Event) (event : Event)

@[simp] theorem interfaceEvents_concat :
    interfaceEvents (tape ++ [event]) = interfaceEvents tape ++ event.interface?.toList :=
  LabeledMachine.filterMap_concat _ tape event

@[simp] theorem performed_concat : performed (tape ++ [event]) = performed tape ++ event.performed?.toList :=
  LabeledMachine.filterMap_concat _ tape event

@[simp] theorem performed_map_main (events : List Performed) : performed (events.map .main) = events := by
  simp [performed, List.filterMap_map, Function.comp_def]

theorem performed_append (first second : List Event) :
    performed (first ++ second) = performed first ++ performed second := List.filterMap_append

end Readings

end Process

end OtaCli.Model
