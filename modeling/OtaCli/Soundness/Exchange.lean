import OtaCli.Machine.StopAndWait
import OtaCli.Model.Network
import OtaCli.Soundness.SlotHistory

/-! # Where the exchange of the current command stands

On a bus with one device there is never more than one thing under way: the command frame, then the
command at the device, its answer on the bus, in the reader's hands, and in the slot, or nothing any
more once it is lost. `Exchange` names the place, `Stands` says what the network looks like then, and
the network is shown to simulate stop and wait with the clear of the slot as acknowledgement.
-/

namespace OtaCli.Soundness

open Model Model.KvaserInterface LabeledMachine

variable {α : Type}

/-- The place of the one thing under way. -/
inductive Exchange where
  | idle
  | onWire (frame : CanMsg)
  | atDevice
  | onBus (response : ReadResult)
  | held (response : ReadResult)
  | inSlot (response : ReadResult)
  | lost (frame : Option CanMsg)

namespace Exchange

/-- The place as a phase of stop and wait. -/
def phase : Exchange → StopAndWait.Phase CanMsg
  | .idle => .ready
  | .onWire frame => .flying frame
  | .atDevice | .onBus _ | .held _ | .inSlot _ => .delivered
  | .lost frame => .stuck frame

/-- The device's answer to the current command, once given. -/
def answer? : Exchange → Option ReadResult
  | .onBus response | .held response | .inSlot response => some response
  | _ => none

def wire (n : ℕ) : Exchange → List (ℕ × CanMsg)
  | .onWire frame => [(n, frame)]
  | _ => []

def unanswered (n : ℕ) : Exchange → List ℕ
  | .atDevice => [n]
  | _ => []

def responses (n : ℕ) : Exchange → List (ℕ × ReadResult)
  | .onBus response => [(n, response)]
  | _ => []

def inReader : Exchange → Option ResponsePacket
  | .held response => some response.parsed
  | _ => none

def slot : Exchange → Option ResponsePacket
  | .inSlot response => some response.parsed
  | _ => none

/-- Where the caller may be meanwhile. -/
def Caller (e : Exchange) (sender : SenderPc α) : Prop :=
  match e with
  | .idle => sender.call? = none
  | .inSlot _ => sender.call? ≠ none
  | _ => sender.waiting? ≠ none

end Exchange

/-- The network with the exchange of the last attempted command at the given place. -/
structure Stands (actions : List Action) (s : KvaserState α) (bus : Bus) (e : Exchange) : Prop where
  wire : bus.wire = e.wire (bus.attempts - 1)
  unanswered : bus.unanswered = e.unanswered (bus.attempts - 1)
  responses : bus.responses = e.responses (bus.attempts - 1)
  reader : s.reader.held = e.inReader
  slot : s.responsePacket = e.slot
  caller : e.Caller s.sender
  answered : ∀ r, e.answer? = some r → r.IsResponse ∧ .answer (bus.attempts - 1) r ∈ actions

/-- The steps of stop and wait in the network. -/
@[simp] def stopAndWaitOp? : Action → Option (StopAndWait.Op CanMsg)
  | .code (.canWrite cmd status) => some (.send cmd.mappedMsg (status ≠ canOK))
  | .code (.clear _) => some .acknowledge
  | .deliver _ frame => some (.deliver frame)
  | .loseCommand _ _ | .loseResponse _ _ => some .drop
  | _ => none

/-- What is received in stop and wait is what the bus delivers. -/
theorem received_exchanged (actions : List Action) :
    StopAndWait.received (actions.filterMap stopAndWaitOp?) = delivered actions := by
  rw [StopAndWait.received, List.filterMap_filterMap, delivered]
  congr
  funext action
  rcases action with (_ | _ | _ | _ | _ | _ | _ | _ | _) | _ | _ | _ | _ | _ <;> rfl

/-- What is sent in it is what the code writes. -/
theorem sent_exchanged (actions : List Action) :
    StopAndWait.sent (actions.filterMap stopAndWaitOp?) =
      (written (codeEvents actions)).map (·.mappedMsg) := by
  rw [StopAndWait.sent, List.filterMap_filterMap, written, codeEvents, List.filterMap_filterMap,
    List.map_filterMap]
  congr
  funext action
  rcases action with (_ | _ | _ | _ | _ | _ | _ | _ | _) | _ | _ | _ | _ | _ <;> rfl

section Steps

variable {actions : List Action} {s t : KvaserState α} {bus after : Bus} {e : Exchange}
  {action : Action}

/-- A longer tape, and states that agree on what matters, leave the exchange where it stands. -/
theorem Stands.stay (stands : Stands actions s bus e) (action : Action)
    (reader : t.reader.held = s.reader.held) (slot : t.responsePacket = s.responsePacket)
    (caller : e.Caller t.sender) : Stands (actions ++ [action]) t bus e where
  wire := stands.wire
  unanswered := stands.unanswered
  responses := stands.responses
  reader := reader.trans stands.reader
  slot := slot.trans stands.slot
  caller := caller
  answered r answer :=
    ⟨(stands.answered r answer).1, List.mem_append_left _ (stands.answered r answer).2⟩

/-- A thread that waits on a full slot waits for the answer in it. -/
theorem Stands.exists_inSlot (stands : Stands actions s bus e) {packet : ResponsePacket}
    (full : s.responsePacket = some packet) : ∃ r, e = .inSlot r ∧ packet = r.parsed := by
  have slot := full.symm.trans stands.slot
  cases e <;> cases slot
  exact ⟨_, rfl, rfl⟩

theorem Stands.exists_held (stands : Stands actions s bus e) {packet : ResponsePacket}
    (holds : s.reader.held = some packet) : ∃ r, e = .held r ∧ packet = r.parsed := by
  have reader := holds.symm.trans stands.reader
  cases e <;> cases reader
  exact ⟨_, rfl, rfl⟩

theorem Stands.eq_idle (stands : Stands actions s bus e) (own : s.sender.call? = none) : e = .idle := by
  have caller := stands.caller
  cases e <;> first | rfl | exact absurd own caller | exact absurd own (SenderPc.call_of_waiting caller)

theorem Stands.inSlot_of_clear (stands : Stands actions s bus e) {call : Call α}
    {response : Option ResponsePacket} (clearing : s.sender = .clear call response) :
    ∃ r, e = .inSlot r := by
  have caller := stands.caller
  rw [clearing] at caller
  cases e <;> first | exact ⟨_, rfl⟩ | exact absurd rfl caller | cases caller

/-- A frame on the wire is the one under way. -/
theorem Stands.of_mem_wire (stands : Stands actions s bus e) {n : ℕ} {frame : CanMsg}
    (member : (n, frame) ∈ bus.wire) : e = .onWire frame ∧ n = bus.attempts - 1 := by
  rw [stands.wire] at member
  cases e <;> simp [Exchange.wire] at member
  obtain ⟨rfl, rfl⟩ := member
  exact ⟨rfl, rfl⟩

theorem Stands.of_mem_unanswered (stands : Stands actions s bus e) {n : ℕ}
    (member : n ∈ bus.unanswered) : e = .atDevice ∧ n = bus.attempts - 1 := by
  rw [stands.unanswered] at member
  cases e <;> simp [Exchange.unanswered] at member
  exact ⟨rfl, member⟩

theorem Stands.of_mem_responses (stands : Stands actions s bus e) {n : ℕ} {r : ReadResult}
    (member : (n, r) ∈ bus.responses) : e = .onBus r ∧ n = bus.attempts - 1 := by
  rw [stands.responses] at member
  cases e <;> simp [Exchange.responses] at member
  obtain ⟨rfl, rfl⟩ := member
  exact ⟨rfl, rfl⟩

/-- Steps of the threads by themselves: only a store and a clear move the exchange on. -/
theorem Stands.code_step (stands : Stands actions s bus e) {event : Event} (stepped : Step s event t)
    (unwritten : event.written? = none) (unreceived : event.received? = none) :
    ∃ e', Stands (actions ++ [.code event]) t bus e' ∧
      (StopAndWait.machine CanMsg).Run e.phase (stopAndWaitOp? (.code event)).toList e'.phase := by
  cases stepped
  case writeLine => exact ⟨e, stands.stay _ rfl rfl (stands.eq_idle rfl ▸ rfl), .refl _⟩
  case canWrite => cases unwritten
  case canWriteSync => exact ⟨e, stands.stay _ rfl rfl stands.caller, .refl _⟩
  case loopAgain => exact ⟨e, stands.stay _ rfl rfl stands.caller, .refl _⟩
  case loopBody => exact ⟨e, stands.stay _ rfl rfl stands.caller, .refl _⟩
  case isCancellationRequested cancelled =>
    exact ⟨e, stands.stay _ (ReviverLoop.held_afterCheck cancelled) rfl stands.caller, .refl _⟩
  case canRead result =>
    have silent : (ReviverLoop.afterRead result).held = none := by
      simpa using unreceived
    exact ⟨e, stands.stay _ silent rfl stands.caller, .refl _⟩
  case loopExit packet =>
    obtain ⟨r, rfl, -⟩ := stands.exists_inSlot rfl
    exact ⟨_, stands.stay _ rfl rfl (by simp [Exchange.Caller, SenderPc.call?]), .refl _⟩
  case store packet =>
    obtain ⟨r, rfl, rfl⟩ := stands.exists_held rfl
    refine ⟨.inSlot r, ⟨stands.wire, stands.unanswered, stands.responses, rfl, rfl, ?_, ?_⟩, .refl _⟩
    · exact SenderPc.call_of_waiting stands.caller
    · rintro _ ⟨⟩
      exact ⟨(stands.answered r rfl).1, List.mem_append_left _ (stands.answered r rfl).2⟩
  case clear =>
    obtain ⟨r, rfl⟩ := stands.inSlot_of_clear rfl
    exact ⟨.idle, ⟨stands.wire, stands.unanswered, stands.responses, stands.reader, rfl, rfl,
      by simp [Exchange.answer?]⟩, Run.singleton_iff.mpr rfl⟩

/-- A `canWrite` begins the next exchange, or loses it at once. -/
theorem Stands.write_step (stands : Stands actions s bus e) {cmd : CommandPacket} {status : CanStatus}
    (stepped : Step s (.canWrite cmd status) t) :
    ∃ e', Stands (actions ++ [.code (.canWrite cmd status)]) t (bus.write cmd status) e' ∧
      (StopAndWait.machine CanMsg).Run e.phase
        (stopAndWaitOp? (.code (.canWrite cmd status))).toList e'.phase := by
  cases stepped
  obtain rfl := stands.eq_idle rfl
  by_cases fine : status = canOK
  · refine ⟨.onWire cmd.mappedMsg, ⟨?_, stands.unanswered, stands.responses, stands.reader,
      stands.slot, by simp [Exchange.Caller, SenderPc.waiting?], by simp [Exchange.answer?]⟩, ?_⟩
    · simp [Bus.write, fine, stands.wire, Exchange.wire]
    · simp [StopAndWait.machine, StopAndWait.step, Exchange.phase, fine]
  · refine ⟨.lost (some cmd.mappedMsg), ⟨?_, stands.unanswered, stands.responses, stands.reader,
      stands.slot, by simp [Exchange.Caller, SenderPc.waiting?], by simp [Exchange.answer?]⟩, ?_⟩
    · simp [Bus.write, fine, stands.wire, Exchange.wire]
    · simp [StopAndWait.machine, StopAndWait.step, Exchange.phase, fine]

/-- Reading the response takes it from the bus into the reader's hands. -/
theorem Stands.receive_step (stands : Stands actions s bus e) {n : ℕ} {r : ReadResult}
    (stepped : Step s (.canRead r) t) (moved : bus.step (.receive n r) = some after) :
    ∃ e', Stands (actions ++ [.receive n r]) t after e' ∧ e'.phase = e.phase := by
  obtain ⟨member, taken⟩ := Option.ite_none_right_eq_some.mp moved
  obtain rfl := Option.some.inj taken
  obtain ⟨rfl, rfl⟩ := stands.of_mem_responses member
  obtain ⟨response, given⟩ := stands.answered r rfl
  cases stepped
  refine ⟨.held r, ⟨stands.wire, stands.unanswered, ?_, ?_, stands.slot, stands.caller, ?_⟩, rfl⟩
  · simp [stands.responses, Exchange.responses]
  · rw [ReviverLoop.held_afterRead, if_pos response]
    rfl
  · rintro _ ⟨⟩
    exact ⟨response, List.mem_append_left _ given⟩

/-- The steps outside the interface. -/
theorem Stands.bus_step (stands : Stands actions s bus e) (outside : action.event? = none)
    (moved : bus.step action = some after) :
    ∃ e', Stands (actions ++ [action]) s after e' ∧
      (StopAndWait.machine CanMsg).Run e.phase (stopAndWaitOp? action).toList e'.phase := by
  cases action with
  | code => cases outside
  | receive => cases outside
  | deliver n frame =>
    obtain ⟨member, taken⟩ := Option.ite_none_right_eq_some.mp moved
    obtain rfl := Option.some.inj taken
    obtain ⟨rfl, rfl⟩ := stands.of_mem_wire member
    refine ⟨.atDevice, ⟨?_, ?_, stands.responses, stands.reader, stands.slot, stands.caller, ?_⟩, ?_⟩
    · simp [stands.wire, Exchange.wire]
    · simp [stands.unanswered, Exchange.unanswered]
    · simp [Exchange.answer?]
    · simp [StopAndWait.machine, StopAndWait.step, Exchange.phase]
  | loseCommand n frame =>
    obtain ⟨member, taken⟩ := Option.ite_none_right_eq_some.mp moved
    obtain rfl := Option.some.inj taken
    obtain ⟨rfl, rfl⟩ := stands.of_mem_wire member
    refine ⟨.lost (some frame), ⟨?_, stands.unanswered, stands.responses, stands.reader, stands.slot,
      stands.caller, ?_⟩, ?_⟩
    · simp [stands.wire, Exchange.wire]
    · simp [Exchange.answer?]
    · simp [StopAndWait.machine, StopAndWait.step, Exchange.phase]
  | answer n r =>
    obtain ⟨⟨member, response⟩, taken⟩ := Option.ite_none_right_eq_some.mp moved
    obtain rfl := Option.some.inj taken
    obtain ⟨rfl, rfl⟩ := stands.of_mem_unanswered member
    refine ⟨.onBus r, ⟨stands.wire, ?_, ?_, stands.reader, stands.slot, stands.caller, ?_⟩, .refl _⟩
    · simp [stands.unanswered, Exchange.unanswered]
    · simp [stands.responses, Exchange.responses]
    · rintro _ ⟨⟩
      exact ⟨response, by simp⟩
  | loseResponse n r =>
    obtain ⟨member, taken⟩ := Option.ite_none_right_eq_some.mp moved
    obtain rfl := Option.some.inj taken
    obtain ⟨rfl, rfl⟩ := stands.of_mem_responses member
    refine ⟨.lost none, ⟨stands.wire, stands.unanswered, ?_, stands.reader, stands.slot,
      stands.caller, ?_⟩, ?_⟩
    · simp [stands.responses, Exchange.responses]
    · simp [Exchange.answer?]
    · simp [StopAndWait.machine, StopAndWait.step, Exchange.phase]

/-- The exchange stands somewhere after every step, and moves as stop and wait does. -/
theorem Stands.step (stands : Stands actions s bus e)
    (stepped : (network α).step (s, bus) action = some (t, after)) :
    ∃ e', Stands (actions ++ [action]) t after e' ∧
      (StopAndWait.machine CanMsg).Run e.phase (stopAndWaitOp? action).toList e'.phase := by
  obtain ⟨inner, outer⟩ := within_step_iff.mp stepped
  cases action with
  | code event =>
    have rule := step_eq_some_iff.mp (Run.singleton_iff.mp inner)
    cases written : event.written? with
    | some cmd =>
      cases event <;> cases written
      obtain rfl := Option.some.inj outer
      exact stands.write_step rule
    | none =>
      have quiet : event.received? = none ∧ bus = after := by
        cases event <;> simp_all [Bus.machine, Bus.step]
      obtain ⟨unreceived, rfl⟩ := quiet
      exact stands.code_step rule written unreceived
  | receive n r =>
    obtain ⟨e', holds, same⟩ :=
      stands.receive_step (step_eq_some_iff.mp (Run.singleton_iff.mp inner)) outer
    exact ⟨e', holds, same ▸ .refl _⟩
  | deliver | loseCommand | answer | loseResponse =>
    obtain rfl := Run.nil_iff.mp inner
    exact stands.bus_step rfl outer

end Steps

/-- Every network run from a quiet start stands somewhere, and is a run of stop and wait. -/
private theorem stopAndWait_simulates (client : Client α) :
    Simulates (network α) (StopAndWait.machine CanMsg) stopAndWaitOp?
      (fun actions state phase => ∃ e, Stands actions state.1 state.2 e ∧ e.phase = phase)
      (start client, Bus.quiet) := by
  constructor
  rintro actions ⟨s, bus⟩ phase action ⟨t, after⟩ - ⟨e, stands, rfl⟩ stepped
  obtain ⟨e', holds, moved⟩ := stands.step stepped
  exact ⟨e'.phase, moved, e', holds, rfl⟩

private theorem stands_start (client : Client α) : Stands [] (start client) Bus.quiet .idle :=
  ⟨rfl, rfl, rfl, rfl, rfl, rfl, by simp [Exchange.answer?]⟩

section Runs

variable {client : Client α} {actions : List Action} {s : KvaserState α} {bus : Bus}

theorem stopAndWait_run (run : (network α).Run (start client, Bus.quiet) actions (s, bus)) :
    ∃ e, Stands actions s bus e ∧ (StopAndWait.machine CanMsg).Run .ready
      (actions.filterMap stopAndWaitOp?) e.phase := by
  obtain ⟨_, ops, e, stands, rfl⟩ :=
    (stopAndWait_simulates client).run ⟨.idle, stands_start client, rfl⟩ run
  exact ⟨e, stands, ops⟩

/-- The numbers on the bus count the attempts. -/
private theorem attempts_eq (run : (network α).Run (start client, Bus.quiet) actions (s, bus)) :
    bus.attempts = (written (codeEvents actions)).length := by
  refine run.invariant (I := fun tape state =>
    state.2.attempts = (written (codeEvents tape)).length) rfl ?_
  rintro prior ⟨s, bus⟩ action ⟨t, after⟩ - counted stepped
  have counts := Bus.attempts_of_step (within_step_iff.mp stepped).2
  cases action with
  | code event => simpa [counts] using counted
  | receive | deliver | loseCommand | answer | loseResponse => simpa [counts] using counted

/-- The wait of call `i` ends on the device's answer to command `i`. -/
theorem observed_answers (run : (network α).Run (start client, Bus.quiet) actions (s, bus)) :
    ∀ i packet, (observed (codeEvents actions))[i]? = some packet →
      ∃ r, .answer i r ∈ actions ∧ packet = r.parsed := by
  refine run.invariant (I := fun tape _ => ∀ i packet,
    (observed (codeEvents tape))[i]? = some packet → ∃ r, .answer i r ∈ tape ∧ packet = r.parsed)
    (by simp [codeEvents]) ?_
  rintro prior ⟨s, bus⟩ action ⟨t, after⟩ before answers stepped i packet seen
  have keep : ∀ i packet, (observed (codeEvents prior))[i]? = some packet →
      ∃ r, .answer i r ∈ prior ++ [action] ∧ packet = r.parsed := by
    intro i packet seen
    obtain ⟨r, given, same⟩ := answers i packet seen
    exact ⟨r, List.mem_append_left _ given, same⟩
  by_cases exit : ∃ packet, action = .code (.loopTest (some packet))
  · obtain ⟨exitPacket, rfl⟩ := exit
    obtain ⟨inner, -⟩ := within_step_iff.mp stepped
    have rule := step_eq_some_iff.mp (Run.singleton_iff.mp inner)
    cases rule
    obtain ⟨e, stands, -⟩ := stopAndWait_run before
    obtain ⟨r, rfl, rfl⟩ := stands.exists_inSlot rfl
    -- the call that ends its wait is the last one begun
    have number : bus.attempts - 1 = (observed (codeEvents prior)).length := by
      have waits := (SlotHistory.call_counts (code_run before)).2
      rw [attempts_eq before, waits]
      rfl
    rcases Nat.lt_trichotomy i (observed (codeEvents prior)).length with earlier | rfl | beyond
    · exact keep i packet (by simpa [List.getElem?_append_left earlier] using seen)
    · have same : r.parsed = packet := by simpa using seen
      obtain ⟨-, given⟩ := stands.answered r rfl
      exact ⟨r, List.mem_append_left _ (number ▸ given), same.symm⟩
    · rw [List.getElem?_eq_none (by simpa using Nat.succ_le_of_lt beyond)] at seen
      cases seen
  · have same : observed (codeEvents (prior ++ [action])) = observed (codeEvents prior) := by
      rcases action with (_ | _ | _ | (_ | packet) | _ | _ | _ | _ | _) | _ | _ | _ | _ | _
      case code.loopTest.some => exact absurd ⟨packet, rfl⟩ exit
      all_goals simp
    exact keep i packet (same ▸ seen)

end Runs

end OtaCli.Soundness
