import OtaCli.Machine.Refinement
import OtaCli.Model.Tape

/-! # The interface on a bus with one device

The environment of `KvaserInterface` made explicit: command frames travel to the device, the device
answers a delivered command at most once and only then, and no one else sends with the identifier of
a response. The bus may lose a frame in either direction and delivers in any order. Frames carry the
number of the command they belong to; the code never sees it.
-/

namespace OtaCli.Model

/-- What is under way outside the interface. -/
structure Bus where
  attempts : ℕ
  wire : List (ℕ × CanMsg)
  unanswered : List ℕ
  responses : List (ℕ × ReadResult)

inductive Action where
  /-- A step of the code, other than reading a response. -/
  | code (event : Event)
  /-- `canRead` returns the response to command `n`. -/
  | receive (n : ℕ) (response : ReadResult)
  | deliver (n : ℕ) (frame : CanMsg)
  | loseCommand (n : ℕ) (frame : CanMsg)
  | answer (n : ℕ) (response : ReadResult)
  | loseResponse (n : ℕ) (response : ReadResult)

namespace Action

/-- The step of the code in which an action consists, if any. -/
@[simp] def event? : Action → Option Event
  | .code event => some event
  | .receive _ response => some (.canRead response)
  | _ => none

/-- The frame which the device receives. -/
@[simp] def delivered? : Action → Option CanMsg
  | .deliver _ frame => some frame
  | _ => none

end Action

namespace Bus

def quiet : Bus := ⟨0, [], [], []⟩

/-- A `canWrite` that does not fail puts the frame on the wire. -/
def write (bus : Bus) (cmd : CommandPacket) (status : CanStatus) : Bus where
  attempts := bus.attempts + 1
  wire := if status = canOK then (bus.attempts, cmd.mappedMsg) :: bus.wire else bus.wire
  unanswered := bus.unanswered
  responses := bus.responses

def step (bus : Bus) : Action → Option Bus
  | .code (.canWrite cmd status) => some (bus.write cmd status)
  | .code event => if event.received? = none then some bus else none
  | .receive n response =>
    if (n, response) ∈ bus.responses then
      some { bus with responses := bus.responses.erase (n, response) }
    else none
  | .deliver n frame =>
    if (n, frame) ∈ bus.wire then
      some { bus with wire := bus.wire.erase (n, frame), unanswered := n :: bus.unanswered }
    else none
  | .loseCommand n frame =>
    if (n, frame) ∈ bus.wire then some { bus with wire := bus.wire.erase (n, frame) } else none
  | .answer n response =>
    if n ∈ bus.unanswered ∧ response.IsResponse then
      some { bus with unanswered := bus.unanswered.erase n, responses := (n, response) :: bus.responses }
    else none
  | .loseResponse n response =>
    if (n, response) ∈ bus.responses then
      some { bus with responses := bus.responses.erase (n, response) }
    else none

def machine : LabeledMachine Bus Action := ⟨step⟩

/-- Only a `canWrite` takes a new number. -/
theorem attempts_of_step {bus after : Bus} {action : Action} (moved : bus.step action = some after) :
    after.attempts = bus.attempts + (action.event?.bind Event.written?).toList.length := by
  cases action with
  | code event =>
    cases event with
    | canRead result =>
      obtain ⟨-, same⟩ := Option.ite_none_right_eq_some.mp moved
      obtain rfl := Option.some.inj same
      rfl
    | _ =>
      obtain rfl := Option.some.inj moved
      rfl
  | receive | deliver | loseCommand | answer | loseResponse =>
    obtain ⟨-, same⟩ := Option.ite_none_right_eq_some.mp moved
    obtain rfl := Option.some.inj same
    rfl

end Bus

/-- The interface, the bus and the device together. -/
def network (α : Type) : LabeledMachine (KvaserState α × Bus) Action :=
  (KvaserInterface.machine α).within Bus.machine Action.event?

/-- The steps of the code in a run of the network. -/
def codeEvents (actions : List Action) : List Event := actions.filterMap Action.event?

/-- The command frames delivered to the device, in order. -/
def delivered (actions : List Action) : List CanMsg := actions.filterMap Action.delivered?

/-- What is proved of the interface in any environment holds of its part in the network. -/
theorem code_run {α : Type} {source target : KvaserState α} {around after : Bus} {actions : List Action}
    (run : (network α).Run (source, around) actions (target, after)) :
    (KvaserInterface.machine α).Run source (codeEvents actions) target := run.inner

@[simp] theorem codeEvents_concat (actions : List Action) (action : Action) :
    codeEvents (actions ++ [action]) = codeEvents actions ++ action.event?.toList :=
  LabeledMachine.filterMap_concat _ actions action

end OtaCli.Model
