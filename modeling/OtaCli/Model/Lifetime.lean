import OtaCli.Model.Lifecycle

/-! # An interface object and its reader loops

One thread calls `Init` and `Stop` in any order; each `Init` that gets so far starts a reader loop, which
runs beside it until it sees the token cancelled. All of them share the fields of the object: the loops read
`_handle` anew for every `canRead`, and all loops have the one token of `_cts`. Any step of any loop can
fall between two operations of the caller.
-/

namespace OtaCli.Model

namespace Lifetime

open KvaserInterface

/-- Where the calling thread stands: between its calls, or in one of them. -/
inductive Caller where
  | idle
  | init (rest : Code Bool)
  | stop (rest : Code Unit)

/-- The reader loops stand in the order in which they were started. -/
structure State where
  caller : Caller
  fields : Fields
  responsePacket : Option ResponsePacket
  readers : List ReaderPc

/-- A step of a reader loop. -/
inductive ReaderEvent where
  | isCancellationRequested (cancelled : Bool)
  | canRead (handle : Int32) (result : ReadResult)
  | store (packet : ResponsePacket)

/-- A step of the caller or of one of the loops. -/
inductive Move where
  | callInit
  | callStop
  | caller (event : Performed)
  | returnInit (value : Bool)
  | returnStop
  | reader (i : ℕ) (event : ReaderEvent)

/-- `new KvaserInterface(chanelId, baudRate)` -/
def new : State := ⟨.idle, {}, none, []⟩

def Caller.step : Caller → Performed → Option Caller
  | .idle, _ => none
  | .init rest, event => (Interaction.step rest event).map .init
  | .stop rest, event => (Interaction.step rest event).map .stop

/-- `ReviverLoop` on the fields as they are. -/
def readerStep (o : Fields) : ReaderPc → ReaderEvent → Option ReaderPc
  | .check, .isCancellationRequested cancelled =>
    if cancelled = o.cancelled then some (ReviverLoop.afterCheck cancelled) else none
  | .read, .canRead handle result => if handle = o.handle then some (ReviverLoop.afterRead result) else none
  | .store parsed, .store packet => if parsed = packet then some .check else none
  | _, _ => none

/-- The assignment to `_responsePacket`, where a step of a loop is one. -/
def storeResponse (responsePacket : Option ResponsePacket) : ReaderEvent → Option ResponsePacket
  | .store packet => some packet
  | _ => responsePacket

/-- The loops after an operation of the caller. -/
def startReader (readers : List ReaderPc) (op : Op) : List ReaderPc :=
  if op = .startReader then readers ++ [.check] else readers

def step (chanelId baudRate : Int32) (s : State) : Move → Option State
  | .callInit =>
    match s.caller with
    | .idle => some { s with caller := .init (init chanelId baudRate) }
    | _ => none
  | .callStop =>
    match s.caller with
    | .idle => some { s with caller := .stop stop }
    | _ => none
  | .caller event => do
    let caller ← s.caller.step event
    let fields ← s.fields.step event
    return { s with caller, fields, readers := startReader s.readers event.1 }
  | .returnInit value =>
    match s.caller with
    | .init (.ret returned) => if returned = value then some { s with caller := .idle } else none
    | _ => none
  | .returnStop =>
    match s.caller with
    | .stop (.ret ()) => some { s with caller := .idle }
    | _ => none
  | .reader i event => do
    let reader ← s.readers[i]?
    let moved ← readerStep s.fields reader event
    return { s with
      responsePacket := storeResponse s.responsePacket event, readers := s.readers.set i moved }

def machine (chanelId baudRate : Int32) : LabeledMachine State Move := ⟨step chanelId baudRate⟩

/-- The same steps as rules. -/
inductive Step (chanelId baudRate : Int32) : State → Move → State → Prop
  | callInit {o slot readers} : Step chanelId baudRate ⟨.idle, o, slot, readers⟩ .callInit
      ⟨.init (init chanelId baudRate), o, slot, readers⟩
  | callStop {o slot readers} : Step chanelId baudRate ⟨.idle, o, slot, readers⟩ .callStop
      ⟨.stop stop, o, slot, readers⟩
  | inInit {o o' slot readers event} {rest rest' : Code Bool}
      (moves : (Interaction.machine _ _ _).step rest event = some rest') (acts : o.step event = some o') :
      Step chanelId baudRate ⟨.init rest, o, slot, readers⟩ (.caller event)
        ⟨.init rest', o', slot, startReader readers event.1⟩
  | inStop {o o' slot readers event} {rest rest' : Code Unit}
      (moves : (Interaction.machine _ _ _).step rest event = some rest') (acts : o.step event = some o') :
      Step chanelId baudRate ⟨.stop rest, o, slot, readers⟩ (.caller event)
        ⟨.stop rest', o', slot, startReader readers event.1⟩
  | returnInit {o slot readers value} : Step chanelId baudRate ⟨.init (.ret value), o, slot, readers⟩
      (.returnInit value) ⟨.idle, o, slot, readers⟩
  | returnStop {o slot readers} : Step chanelId baudRate ⟨.stop (.ret ()), o, slot, readers⟩
      .returnStop ⟨.idle, o, slot, readers⟩
  | reader {caller o slot readers i event reader moved} (stands : readers[i]? = some reader)
      (moves : readerStep o reader event = some moved) :
      Step chanelId baudRate ⟨caller, o, slot, readers⟩ (.reader i event)
        ⟨caller, o, storeResponse slot event, readers.set i moved⟩

/-- What a loop can do, by where it stands. -/
theorem readerStep_cases {o : Fields} {pc moved : ReaderPc} {event : ReaderEvent}
    (moves : readerStep o pc event = some moved) :
    (pc = .check ∧ event = .isCancellationRequested o.cancelled ∧
      moved = ReviverLoop.afterCheck o.cancelled) ∨
    (pc = .read ∧ ∃ result, event = .canRead o.handle result ∧ moved = ReviverLoop.afterRead result) ∨
    ∃ packet, pc = .store packet ∧ event = .store packet ∧ moved = .check := by
  match pc, event, moves with
  | .check, .isCancellationRequested cancelled, moves =>
    obtain ⟨rfl, same⟩ := Option.ite_none_right_eq_some.mp moves
    exact .inl ⟨rfl, rfl, (Option.some.inj same).symm⟩
  | .read, .canRead handle result, moves =>
    obtain ⟨rfl, same⟩ := Option.ite_none_right_eq_some.mp moves
    exact .inr (.inl ⟨rfl, result, rfl, (Option.some.inj same).symm⟩)
  | .store parsed, .store packet, moves =>
    obtain ⟨rfl, same⟩ := Option.ite_none_right_eq_some.mp moves
    exact .inr (.inr ⟨parsed, rfl, rfl, (Option.some.inj same).symm⟩)

variable {chanelId baudRate : Int32} {s t : State} {move : Move}

theorem step_eq_some_iff :
    (machine chanelId baudRate).step s move = some t ↔ Step chanelId baudRate s move t := by
  constructor
  · intro stepped
    rcases s with ⟨caller, o, slot, readers⟩
    cases move with
    | callInit =>
      match caller, stepped with
      | .idle, stepped => cases stepped; exact .callInit
    | callStop =>
      match caller, stepped with
      | .idle, stepped => cases stepped; exact .callStop
    | caller event =>
      obtain ⟨next, moves, rest⟩ := Option.bind_eq_some_iff.mp stepped
      obtain ⟨o', acts, moved⟩ := Option.bind_eq_some_iff.mp rest
      cases moved
      match caller, moves with
      | .init rest, moves =>
        obtain ⟨rest', inner, rfl⟩ := Option.map_eq_some_iff.mp moves
        exact .inInit inner acts
      | .stop rest, moves =>
        obtain ⟨rest', inner, rfl⟩ := Option.map_eq_some_iff.mp moves
        exact .inStop inner acts
    | returnInit value =>
      match caller, stepped with
      | .init (.ret returned), stepped =>
        obtain ⟨rfl, moved⟩ := Option.ite_none_right_eq_some.mp stepped
        cases moved
        exact .returnInit
    | returnStop =>
      match caller, stepped with
      | .stop (.ret ()), stepped => cases stepped; exact .returnStop
    | reader i event =>
      obtain ⟨reader, stands, rest⟩ := Option.bind_eq_some_iff.mp stepped
      obtain ⟨moved, moves, same⟩ := Option.bind_eq_some_iff.mp rest
      cases same
      exact .reader stands moves
  · intro stepped
    cases stepped with
    | callInit => rfl
    | callStop => rfl
    | inInit moves acts => simp_all [machine, step, Caller.step, Interaction.machine]
    | inStop moves acts => simp_all [machine, step, Caller.step, Interaction.machine]
    | returnInit => simp [machine, step]
    | returnStop => rfl
    | reader stands moves => simp_all [machine, step]

theorem Step.cons {next : State} {rest : List Move} (step : Step chanelId baudRate s move next)
    (run : (machine chanelId baudRate).Run next rest t) :
    (machine chanelId baudRate).Run s (move :: rest) t :=
  LabeledMachine.Run.cons_iff.mpr ⟨next, step_eq_some_iff.mpr step, run⟩

end Lifetime

end OtaCli.Model
