import OtaCli.Soundness.Exchange

/-! # What a call returns

The packet that ends the wait and the packet that is returned come from different reads of the slot.
They are the same exactly when the response is stored between a loop test that saw null and the read
in the loop body; stored at any other moment of the wait, it ends the loop before the body has read it,
and null is returned.
-/

namespace OtaCli.Soundness.ResponseCapture

open Model Model.KvaserInterface LabeledMachine AnsweredCall

variable {α : Type}

/-- A response is stored only while the caller is about to read the slot in the loop body. -/
def StoredInBody (_ : List Event) (s : KvaserState α) (event : Event) : Prop :=
  ∀ packet, event = .store packet → ∃ call, s.sender = .loopBody call

/-- What the call will return that has left its wait loop. -/
def pending : SenderPc α → List (Option ResponsePacket)
  | .clear _ response => [response]
  | _ => []

/-- The local copy agrees with the slot where the code relies on it. -/
def Captured (s : KvaserState α) : Prop :=
  match s.sender with
  | .client _ | .writeSync _ => s.responsePacket = none
  | .loopTest _ response | .clear _ response => response = s.responsePacket
  | .loopBody _ => True

section Interface

variable {client : Client α} {events : List Event} {s : KvaserState α}

private theorem captured_of_run (run : (machine α).Run (start client) events s)
    (along : (machine α).Along (start client) events StoredInBody) :
    Captured s ∧ (observed events).map some = returned events ++ pending s.sender := by
  refine run.invariant_along (I := fun tape s =>
    Captured s ∧ (observed tape).map some = returned tape ++ pending s.sender) along ⟨rfl, rfl⟩ ?_
  rintro prior middle event next - ⟨captured, same⟩ allowed stepped
  cases step_eq_some_iff.mp stepped
  case writeLine => exact ⟨captured, by simpa [pending] using same⟩
  case canWrite => exact ⟨captured, by simpa [pending] using same⟩
  case canWriteSync => exact ⟨captured.symm, by simpa [pending] using same⟩
  case loopAgain => exact ⟨trivial, by simpa [pending] using same⟩
  case loopExit packet =>
    obtain rfl : _ = some packet := captured
    exact ⟨rfl, by simpa [pending] using same⟩
  case loopBody => exact ⟨rfl, by simpa [pending] using same⟩
  case clear => exact ⟨rfl, by simpa [pending] using same⟩
  case isCancellationRequested => exact ⟨captured, by simpa using same⟩
  case canRead => exact ⟨captured, by simpa using same⟩
  case store packet =>
    obtain ⟨call, rfl⟩ := allowed _ rfl
    exact ⟨trivial, by simpa [pending] using same⟩

/-- While the slot is empty, the loop has read nothing but null. -/
private theorem response_eq_none_of_run (run : (machine α).Run (start client) events s) {call : Call α}
    {response : Option ResponsePacket} (testing : s.sender = .loopTest call response)
    (empty : s.responsePacket = none) : response = none := by
  refine run.invariant (I := fun _ s => ∀ call response, s.sender = .loopTest call response →
    s.responsePacket = none → response = none) (by simp [start]) ?_ call response testing empty
  rintro prior middle event next - holds stepped call response testing empty
  cases step_eq_some_iff.mp stepped
  case store => cases empty
  case canRead => exact holds call response testing empty
  case isCancellationRequested => exact holds call response testing empty
  case canWriteSync =>
    cases testing
    rfl
  case loopBody =>
    cases testing
    exact empty
  all_goals cases testing

end Interface

/-- The caller will find the slot full before it reads it in the loop body, and return null. -/
def Doomed (s : KvaserState α) : Prop :=
  s.responsePacket ≠ none ∧ match s.sender with
    | .writeSync _ => True
    | .loopTest _ response | .clear _ response => response = none
    | .client _ | .loopBody _ => False

section Network

variable {client : Client α} {actions : List Action} {s : KvaserState α} {bus : Bus}

/-- On its way a doomed call stays so until it returns null. -/
theorem Doomed.step {t : KvaserState α} {event : Event} (doomed : Doomed s) (stepped : Step s event t) :
    Doomed t ∨ event = .clear none := by
  obtain ⟨full, position⟩ := doomed
  cases stepped
  case writeLine => cases position
  case canWrite => cases position
  case loopBody => cases position
  case loopAgain => exact absurd rfl full
  case canWriteSync => exact .inl ⟨full, rfl⟩
  case loopExit => exact .inl ⟨full, position⟩
  case isCancellationRequested => exact .inl ⟨full, position⟩
  case canRead => exact .inl ⟨full, position⟩
  case store => exact .inl ⟨by simp, position⟩
  case clear =>
    obtain rfl : _ = none := position
    exact .inr rfl

/-- In the network a store anywhere else in the wait dooms the call. -/
private theorem doomed_of_store (run : (network α).Run (start client, Bus.quiet) actions (s, bus))
    {packet : ResponsePacket} {t : KvaserState α} (stepped : Step s (.store packet) t)
    (elsewhere : ∀ call, s.sender ≠ .loopBody call) : Doomed t := by
  obtain ⟨e, stands, -⟩ := stopAndWait_run run
  cases stepped
  obtain ⟨r, rfl, -⟩ := stands.exists_held rfl
  have waiting := stands.caller
  refine ⟨by simp, ?_⟩
  rename_i slot sender
  cases sender with
  | client => exact absurd rfl waiting
  | clear => exact absurd rfl waiting
  | writeSync => trivial
  | loopTest call response => exact response_eq_none_of_run (code_run run) rfl stands.slot
  | loopBody call => exact absurd rfl (elsewhere call)

/-- A call of a run in which some response is stored elsewhere has returned null or will. -/
private theorem null_of_elsewhere (run : (network α).Run (start client, Bus.quiet) actions (s, bus))
    (elsewhere : ¬ (machine α).Along (start client) (codeEvents actions) StoredInBody) :
    none ∈ returned (codeEvents actions) ∨ Doomed s := by
  refine run.invariant (I := fun tape state =>
    ¬ (machine α).Along (start client) (codeEvents tape) StoredInBody →
      none ∈ returned (codeEvents tape) ∨ Doomed state.1) (absurd Along.nil) ?_ elsewhere
  rintro prior ⟨s, bus⟩ action ⟨t, after⟩ before holds stepped elsewhere
  obtain ⟨inner, -⟩ := within_step_iff.mp stepped
  rw [codeEvents_concat] at elsewhere ⊢
  cases seen : action.event? with
  | none =>
    rw [seen] at inner elsewhere
    obtain rfl := Run.nil_iff.mp inner
    simpa using holds (by simpa using elsewhere)
  | some event =>
    rw [seen] at inner elsewhere
    have rule := step_eq_some_iff.mp (Run.singleton_iff.mp inner)
    rw [Option.toList_some, Along.concat_iff (code_run before), not_and_or] at elsewhere
    rw [Option.toList_some, returned_concat, List.mem_append]
    rcases elsewhere with earlier | last
    · rcases holds earlier with null | doomed
      · exact .inl (.inl null)
      · rcases doomed.step rule with still | rfl
        · exact .inr still
        · exact .inl (.inr (by simp))
    · simp only [StoredInBody, not_forall, not_exists] at last
      obtain ⟨packet, rfl, elsewhere⟩ := last
      exact .inr (doomed_of_store before rule elsewhere)

end Network

/-- Each call that has returned has returned the packet parsed from the device's answer to its own
command. -/
def ReturnsAnswers (actions : List Action) : Prop :=
  ∀ n value, (returned (codeEvents actions))[n]? = some value →
    ∃ r packet, .answer n r ∈ actions ∧ Packet.ofCanMsg r.toCanMsg = .ok packet ∧ value = some packet

private theorem returnsAnswers_of_storedInBody {client : Client α} {actions : List Action} {s : KvaserState α}
    {bus : Bus} (run : (network α).Run (start client, Bus.quiet) actions (s, bus))
    (along : (machine α).Along (start client) (codeEvents actions) StoredInBody) :
    ReturnsAnswers actions := by
  intro n value isReturned
  obtain ⟨-, same⟩ := captured_of_run (code_run run) along
  have inside := (List.getElem?_eq_some_iff.mp isReturned).1
  have seen : ((observed (codeEvents actions)).map some)[n]? = some value := by
    rw [same, List.getElem?_append_left inside]
    exact isReturned
  rw [List.getElem?_map, Option.map_eq_some_iff] at seen
  obtain ⟨packet, seen, rfl⟩ := seen
  obtain ⟨r, given, rfl⟩ := observed_answers run n packet seen
  exact ⟨r, r.parsed, given, r.ofCanMsg_toCanMsg, rfl⟩

/-- A call returns the answer to its command in every run in which the responses are stored while the
caller is about to read the slot in the loop body; and once all calls have returned, only then. -/
theorem returns_answers (client : Client α) {actions : List Action} {s : KvaserState α} {bus : Bus}
    (run : (network α).Run (start client, Bus.quiet) actions (s, bus)) :
    ((machine α).Along (start client) (codeEvents actions) StoredInBody → ReturnsAnswers actions) ∧
    (s.sender.call? = none →
      ((machine α).Along (start client) (codeEvents actions) StoredInBody ↔ ReturnsAnswers actions)) := by
  refine ⟨returnsAnswers_of_storedInBody run, fun finished => ⟨returnsAnswers_of_storedInBody run, ?_⟩⟩
  intro answers
  by_contra elsewhere
  rcases null_of_elsewhere run elsewhere with null | ⟨-, position⟩
  · obtain ⟨n, isReturned⟩ := List.mem_iff_getElem?.mp null
    obtain ⟨_, _, _, _, impossible⟩ := answers n none isReturned
    cases impossible
  · cases sender : s.sender <;> simp_all [SenderPc.call?]

/-- In the orderly schedule the response is stored where it has to be. -/
private theorem answeredCall_storedInBody {r : ReadResult} (response : r.IsResponse) (cmd : CommandPacket)
    (next : Option ResponsePacket → Client α) :
    (machine α).Along (start (.writeCmdMsgRsp cmd next)) (answeredCall cmd r) StoredInBody := by
  have before : (machine α).Along (start (.writeCmdMsgRsp cmd next)) ((answeredWait cmd r).take 5)
      StoredInBody := Along.nil.append (by simp [StoredInBody])
  have reads : Step (⟨none, .loopBody ⟨cmd, next⟩, .read⟩ : KvaserState α) (.canRead r)
      ⟨none, .loopBody ⟨cmd, next⟩, .store r.parsed⟩ :=
    afterRead_of_isResponse response ▸ Step.canRead r
  have run : (machine α).Run (start (.writeCmdMsgRsp cmd next)) ((answeredWait cmd r).take 5)
      ⟨none, .loopBody ⟨cmd, next⟩, .store r.parsed⟩ :=
    (Step.canWrite canOK).cons <| (Step.canWriteSync canOK).cons <| Step.loopAgain.cons <|
      (Step.isCancellationRequested false).cons <| reads.cons <| .refl _
  have inBody : StoredInBody ((answeredWait cmd r).take 5)
      (⟨none, .loopBody ⟨cmd, next⟩, .store r.parsed⟩ : KvaserState α) (.store r.parsed) :=
    fun _ _ => ⟨⟨cmd, next⟩, rfl⟩
  have stores := (Along.concat_iff run).mpr ⟨before, inBody⟩
  have rest : ∀ event ∈ [.loopBody (some r.parsed), .loopTest (some r.parsed), .clear (some r.parsed)],
      ∀ prior (state : KvaserState α), StoredInBody prior state event := by
    simp [StoredInBody]
  exact stores.append rest

theorem returns_answers_of_orderly_call : ReturnsAnswers (networkCall 0 ping pong) := by
  have run := networkCall_run pong_isResponse 0 ping fun _ => (.ret () : Client Unit)
  exact (returns_answers _ run).1 (answeredCall_storedInBody pong_isResponse ping _)

/-- A prompt device: its answer is in the slot before the wait begins, and null is returned. -/
theorem null_from_prompt_device :
    (network Unit).Run (start (.writeCmdMsgRsp ping fun _ => .ret ()), Bus.quiet)
        (earlyNetworkCall 0 ping pong) (start (.ret ()), ⟨1, [], [], []⟩) ∧
      ¬ ReturnsAnswers (earlyNetworkCall 0 ping pong) := by
  refine ⟨earlyNetworkCall_run pong_isResponse 0 ping _, fun answers => ?_⟩
  obtain ⟨_, _, _, _, impossible⟩ := answers 0 none rfl
  cases impossible

end OtaCli.Soundness.ResponseCapture
