import OtaCli.Proofs.FlashTranscript
import OtaCli.Soundness.SlotHistory

/-! # Which responses end a wait

The wait loop ends on whatever is in the slot. A call is answered when, since its `canWrite`, a
response with its command and from its target was received. That every wait ends answered is
guaranteed exactly when nothing is left over at a `canWrite` and the first response received during
each wait is the right one: otherwise the threads need no further event from outside to leave a wait
unanswered.
-/

namespace OtaCli.Soundness.Correspondence

open Model Model.KvaserInterface LabeledMachine AnsweredCall SlotHistory

variable {α : Type}

/-- The response is for this command and from its target. -/
def Matches (r : ReadResult) (cmd : CommandPacket) : Prop :=
  r.parsed.cmd = cmd.cmd ∧ r.parsed.deviceId = cmd.deviceId

instance (r : ReadResult) (cmd : CommandPacket) : Decidable (Matches r cmd) :=
  inferInstanceAs (Decidable (_ ∧ _))

/-- A matching response was received since the last `canWrite`. -/
def Answered (tape : List Event) (cmd : CommandPacket) : Prop :=
  ∃ r ∈ received (sinceWrite tape), Matches r cmd

/-- A wait loop is left only when its command is answered. -/
def ExitAnswered (tape : List Event) (s : KvaserState α) (event : Event) : Prop :=
  ∀ packet call, event = .loopTest (some packet) → s.sender.waiting? = some call →
    Answered tape call.cmd

/-- The next command is written only when the last one is answered. -/
def NextAnswered (tape : List Event) (_ : KvaserState α) (event : Event) : Prop :=
  ∀ cmd status last, event = .canWrite cmd status → (written tape).getLast? = some last →
    Answered tape last

/-- Nothing is left over when a command is written, and the first response received while its caller
waits is the right one. -/
def InStep (tape : List Event) (s : KvaserState α) : Event → Prop
  | .canWrite _ _ => s.responsePacket = none ∧ s.reader.held = none
  | .canRead r => r.IsResponse → ∀ call, s.sender.waiting? = some call →
      Answered tape call.cmd ∨ Matches r call.cmd
  | _ => True

@[simp] theorem received_sinceWrite_concat (tape : List Event) (event : Event) :
    received (sinceWrite (tape ++ [event])) =
      if event.written?.isNone then received (sinceWrite tape) ++ event.received?.toList else [] := by
  rw [sinceWrite_concat]
  split <;> simp

theorem Answered.concat {tape : List Event} {cmd : CommandPacket} (answered : Answered tape cmd)
    {event : Event} (unwritten : event.written? = none) : Answered (tape ++ [event]) cmd := by
  obtain ⟨r, member, matching⟩ := answered
  refine ⟨r, ?_, matching⟩
  rw [received_sinceWrite_concat, unwritten]
  exact List.mem_append_left _ member

variable {client : Client α} {slot : Option ResponsePacket} {reader : ReaderPc} {events : List Event}
  {s : KvaserState α}

/-- While a call waits, a packet in the slot or in the reader's hands was received as its answer. -/
private theorem answered_of_inStep (run : (machine α).Run ⟨slot, .client client, reader⟩ events s)
    (along : (machine α).Along ⟨slot, .client client, reader⟩ events InStep) :
    ∀ call, s.sender.waiting? = some call → s.responsePacket ≠ none ∨ s.reader.held ≠ none →
      Answered events call.cmd := by
  refine run.invariant_along (I := fun tape s => ∀ call, s.sender.waiting? = some call →
    s.responsePacket ≠ none ∨ s.reader.held ≠ none → Answered tape call.cmd) along
    (by simp [SenderPc.waiting?]) ?_
  rintro prior middle event next - holds allowed stepped call waiting present
  cases step_eq_some_iff.mp stepped
  case writeLine => cases waiting
  case clear => cases waiting
  case loopExit => cases waiting
  case canWrite =>
    obtain ⟨empty, free⟩ := allowed
    exact absurd present (by simp_all)
  case canRead r =>
    by_cases response : r.IsResponse
    · rcases allowed response call waiting with earlier | matching
      · exact earlier.concat rfl
      · exact ⟨r, by simp [response], matching⟩
    · exact (holds call waiting (by simpa [response] using present)).concat rfl
  case store => exact (holds call waiting (.inr (by simp))).concat rfl
  case isCancellationRequested =>
    exact (holds call waiting (by simpa using present)).concat rfl
  all_goals exact (holds call waiting present).concat rfl

/-- A run in step leaves its waits answered. -/
private theorem exits_answered (run : (machine α).Run ⟨slot, .client client, reader⟩ events s)
    (along : (machine α).Along ⟨slot, .client client, reader⟩ events InStep) :
    (machine α).Along ⟨slot, .client client, reader⟩ events ExitAnswered := by
  rintro prior middle event within before packet call rfl waiting
  obtain ⟨_, stepped⟩ := run.step_within within before
  have earlier := along.restrict ((List.prefix_append _ _).trans within)
  cases step_eq_some_iff.mp stepped
  exact answered_of_inStep before earlier call waiting (.inl (by simp))

/-- The last command written is the one that is waited for, or it is answered. -/
structure Settled (tape : List Event) (s : KvaserState α) : Prop where
  waiting : ∀ call, s.sender.waiting? = some call → (written tape).getLast? = some call.cmd
  answered : s.sender.waiting? = none → ∀ last, (written tape).getLast? = some last →
    Answered tape last

/-- A step that writes nothing and leaves the caller in or out of its wait. -/
theorem Settled.stay {tape : List Event} {s t : KvaserState α} {event : Event}
    (settled : Settled tape s) (unwritten : event.written? = none)
    (same : t.sender.waiting? = s.sender.waiting?) : Settled (tape ++ [event]) t := by
  constructor
  · intro call waiting
    rw [written_concat, unwritten, Option.toList_none, List.append_nil]
    exact settled.waiting call (same ▸ waiting)
  · intro gone last isLast
    rw [written_concat, unwritten, Option.toList_none, List.append_nil] at isLast
    exact (settled.answered (same ▸ gone) last isLast).concat unwritten

private theorem settled_of_run (run : (machine α).Run ⟨slot, .client client, reader⟩ events s)
    (exits : (machine α).Along ⟨slot, .client client, reader⟩ events ExitAnswered) :
    Settled events s := by
  refine run.invariant_along (I := Settled) exits ⟨by simp [SenderPc.waiting?], by simp⟩ ?_
  rintro prior middle event next - settled exit stepped
  cases step_eq_some_iff.mp stepped
  case canWrite =>
    refine ⟨fun call waiting => ?_, by simp [SenderPc.waiting?]⟩
    obtain rfl := Option.some.inj waiting
    simp
  case loopExit packet =>
    refine ⟨by simp [SenderPc.waiting?], fun _ last isLast => ?_⟩
    have awaited := settled.waiting _ rfl
    obtain rfl : _ = last := by simpa [awaited] using isLast
    exact (exit packet _ rfl rfl).concat rfl
  all_goals exact settled.stay rfl rfl

/-- A caller that leaves its waits only when they are answered goes on to the next command only then. -/
private theorem nexts_answered (run : (machine α).Run ⟨slot, .client client, reader⟩ events s)
    (exits : (machine α).Along ⟨slot, .client client, reader⟩ events ExitAnswered) :
    (machine α).Along ⟨slot, .client client, reader⟩ events NextAnswered := by
  rintro prior middle event within before cmd status last rfl isLast
  obtain ⟨_, stepped⟩ := run.step_within within before
  have settled := settled_of_run before (exits.restrict ((List.prefix_append _ _).trans within))
  cases step_eq_some_iff.mp stepped
  exact settled.answered rfl last isLast

/-- A step of the two threads in which no frame is written or read. -/
def Internal : Event → Prop
  | .canWrite _ _ | .canRead _ => False
  | _ => True

private theorem answered_append {more : List Event} (internal : ∀ event ∈ more, Internal event)
    (tape : List Event) (cmd : CommandPacket) : Answered (tape ++ more) cmd ↔ Answered tape cmd := by
  induction more using List.reverseRecOn with
  | nil => rw [List.append_nil]
  | append_singleton more event ih =>
    have last : Internal event := internal event (by simp)
    have unchanged : received (sinceWrite (tape ++ more ++ [event])) =
        received (sinceWrite (tape ++ more)) := by
      rw [received_sinceWrite_concat]
      cases event with
      | canWrite | canRead => cases last
      | _ => simp
    rw [← List.append_assoc, Answered, unchanged]
    exact ih fun event member => internal event (by simp [member])

/-- With a packet in the slot, a caller that waits needs no one else to come to the end of its wait. -/
private theorem exists_exit_of_full {packet : ResponsePacket} {sender : SenderPc α} {reader : ReaderPc}
    {call : Call α} (waiting : sender.waiting? = some call) :
    ∃ more response, (∀ event ∈ more, Internal event) ∧
      (machine α).Run ⟨some packet, sender, reader⟩ more
        ⟨some packet, .loopTest call response, reader⟩ := by
  cases sender with
  | client => cases waiting
  | clear => cases waiting
  | writeSync =>
    obtain rfl := Option.some.inj waiting
    exact ⟨[.canWriteSync canOK], none, by simp [Internal], (Step.canWriteSync canOK).cons (.refl _)⟩
  | loopTest _ response =>
    obtain rfl := Option.some.inj waiting
    exact ⟨[], response, by simp, .refl _⟩
  | loopBody =>
    obtain rfl := Option.some.inj waiting
    exact ⟨[.loopBody (some packet)], some packet, by simp [Internal], Step.loopBody.cons (.refl _)⟩

/-- Nor does it with a packet in the reader's hands. -/
private theorem exists_exit {call : Call α} (waiting : s.sender.waiting? = some call)
    (present : s.responsePacket ≠ none ∨ s.reader.held ≠ none) :
    ∃ more packet response reader, (∀ event ∈ more, Internal event) ∧
      (machine α).Run s more ⟨some packet, .loopTest call response, reader⟩ := by
  rcases s with ⟨slot, sender, reader⟩
  cases reader with
  | store packet =>
    obtain ⟨more, response, internal, run⟩ := exists_exit_of_full waiting
    exact ⟨.store packet :: more, packet, response, .check, by simpa [Internal] using internal,
      Step.store.cons run⟩
  | check | read | ended | crashed =>
    have full := present.resolve_right (by simp [ReaderPc.held])
    obtain ⟨packet, rfl⟩ := Option.ne_none_iff_exists'.mp full
    obtain ⟨more, response, internal, run⟩ := exists_exit_of_full waiting
    exact ⟨more, packet, response, _, internal, run⟩

/-- After a step out of step, the threads alone can leave a wait unanswered. -/
private theorem exists_unanswered {prior : List Event} {event : Event} {t : KvaserState α}
    (stepped : Step s event t) (outOfStep : ¬ InStep prior s event) :
    ∃ call, t.sender.waiting? = some call ∧ (t.responsePacket ≠ none ∨ t.reader.held ≠ none) ∧
      ¬ Answered (prior ++ [event]) call.cmd := by
  cases stepped
  case canWrite slot reader cmd next status =>
    refine ⟨⟨cmd, next⟩, rfl, ?_, by simp [Answered]⟩
    simpa [InStep, imp_iff_not_or] using outOfStep
  case canRead r =>
    simp only [InStep, not_forall, not_or] at outOfStep
    obtain ⟨response, call, waiting, unanswered, foreign⟩ := outOfStep
    refine ⟨call, waiting, .inr (by simp [response]), ?_⟩
    rintro ⟨other, member, matching⟩
    have last : other ∈ received (sinceWrite prior) ∨ other = r := by simpa [response] using member
    obtain earlier | rfl := last
    · exact unanswered ⟨other, earlier, matching⟩
    · exact foreign matching
  all_goals exact absurd trivial outOfStep

/-- Left to themselves after any moment of the run, the threads leave no wait unanswered. -/
def Robust (source : KvaserState α) (events : List Event) : Prop :=
  ∀ cut more t, cut <+: events → (∀ event ∈ more, Internal event) →
    (machine α).Run source (cut ++ more) t → (machine α).Along source (cut ++ more) ExitAnswered

private theorem inStep_of_robust (run : (machine α).Run ⟨slot, .client client, reader⟩ events s)
    (robust : Robust ⟨slot, .client client, reader⟩ events) :
    (machine α).Along ⟨slot, .client client, reader⟩ events InStep := by
  intro prior middle event within before
  by_contra outOfStep
  obtain ⟨t, stepped⟩ := run.step_within within before
  obtain ⟨call, waiting, present, unanswered⟩ :=
    exists_unanswered (step_eq_some_iff.mp stepped) outOfStep
  obtain ⟨more, packet, response, reader', internal, alone⟩ := exists_exit waiting present
  have internal' : ∀ e ∈ more ++ [.loopTest (some packet)], Internal e := by
    intro e member
    rcases List.mem_append.mp member with inMore | last
    · exact internal e inMore
    · rw [List.mem_singleton.mp last]
      trivial
  have toTest := (Run.concat_iff.mpr ⟨middle, before, stepped⟩).append alone
  have toExit := toTest.append (Step.loopExit.cons (.refl _))
  rw [List.append_assoc] at toExit
  have exits := robust _ _ _ within internal' toExit
  rw [← List.append_assoc] at exits
  have answered := exits _ _ _ List.prefix_rfl toTest packet call rfl rfl
  exact unanswered ((answered_append internal _ _).mp answered)

/-- Every wait of a run in step ends on a response received since the call's `canWrite`, to its command
and from its target, so that no command is written before the last one is answered. And only a run in
step is safe from a wait that ends otherwise: at each moment the threads by themselves can only leave
waits that are answered exactly when every step so far was in step. -/
theorem response_correspondence (client : Client α) {slot : Option ResponsePacket} {reader : ReaderPc}
    {events : List Event} {s : KvaserState α}
    (run : (machine α).Run ⟨slot, .client client, reader⟩ events s) :
    ((machine α).Along ⟨slot, .client client, reader⟩ events InStep →
      (machine α).Along ⟨slot, .client client, reader⟩ events ExitAnswered ∧
        (machine α).Along ⟨slot, .client client, reader⟩ events NextAnswered) ∧
    ((machine α).Along ⟨slot, .client client, reader⟩ events InStep ↔
      Robust ⟨slot, .client client, reader⟩ events) := by
  refine ⟨fun along => ?_, fun along => ?_, inStep_of_robust run⟩
  · have exits := exits_answered run along
    exact ⟨exits, nexts_answered run exits⟩
  intro cut more t within internal alone
  refine exits_answered alone ((along.restrict within).append fun event member prior state => ?_)
  have own := internal event member
  cases event <;> trivial

/-- A call whose only response matches is in step. -/
private theorem answeredCall_inStep {r : ReadResult} {cmd : CommandPacket}
    (matching : Matches r cmd) (next : Option ResponsePacket → Client α) :
    (machine α).Along (start (.writeCmdMsgRsp cmd next)) (answeredCall cmd r) InStep := by
  have begun : (machine α).Along (start (.writeCmdMsgRsp cmd next)) [.canWrite cmd canOK] InStep :=
    (Along.concat_iff (.refl _)).mpr ⟨.nil, rfl, rfl⟩
  have waits : (machine α).Along (start (.writeCmdMsgRsp cmd next)) ((answeredWait cmd r).take 4)
      InStep := begun.append (by simp [InStep])
  have run : (machine α).Run (start (.writeCmdMsgRsp cmd next)) ((answeredWait cmd r).take 4)
      ⟨none, .loopBody ⟨cmd, next⟩, .read⟩ :=
    (Step.canWrite canOK).cons <| (Step.canWriteSync canOK).cons <| Step.loopAgain.cons <|
      (Step.isCancellationRequested false).cons <| .refl _
  have reads : InStep ((answeredWait cmd r).take 4)
      (⟨none, .loopBody ⟨cmd, next⟩, .read⟩ : KvaserState α) (.canRead r) := by
    rintro - call same
    obtain rfl := Option.some.inj same
    exact .inr matching
  have received := (Along.concat_iff run).mpr ⟨waits, reads⟩
  have rest : ∀ event ∈ [.store r.parsed, .loopBody (some r.parsed), .loopTest (some r.parsed),
      .clear (some r.parsed)], ∀ prior (state : KvaserState α), InStep prior state event := by
    simp [InStep]
  exact received.append rest

/-- The begin command of an eight-byte file for device 9. -/
def begin9 : CommandPacket := FileUpdater.lengthPacket Commands.FLASH_BEGIN 9 8

/-- A response to a begin command, from the given device. -/
def beginResponse (senderId : UInt8) : ReadResult :=
  responseFrame ⟨Commands.FLASH_BEGIN, 0, 0, senderId, Vector.replicate 5 0⟩

theorem beginResponse_isResponse (senderId : UInt8) : (beginResponse senderId).IsResponse :=
  responseFrame_isResponse _

theorem response_correspondence_of_answered_call :
    (machine Unit).Along (start (.writeCmdMsgRsp begin9 fun _ => .ret ()))
      (answeredCall begin9 (beginResponse 9)) ExitAnswered := by
  have run := answeredCall_run (beginResponse_isResponse 9) begin9 fun _ => (.ret () : Client Unit)
  have matching : Matches (beginResponse 9) begin9 := by decide +kernel
  exact ((response_correspondence _ run).1 (answeredCall_inStep matching _)).1

/-- A response from device 7 ends the wait for device 9, and the call returns. -/
theorem foreign_response_ends_wait :
    ∃ s, (machine Bool).Run (start (FileUpdater.update (.ok [1, 2, 3, 4, 5, 6, 7, 8]) 9))
        (answeredCall begin9 (beginResponse 7)) s ∧
      ¬ (machine Bool).Along (start (FileUpdater.update (.ok [1, 2, 3, 4, 5, 6, 7, 8]) 9))
        (answeredCall begin9 (beginResponse 7)) ExitAnswered := by
  obtain ⟨next, begins⟩ : ∃ next, FileUpdater.update (.ok [1, 2, 3, 4, 5, 6, 7, 8]) 9 =
      .writeCmdMsgRsp begin9 next := ⟨_, Proofs.FlashTranscript.update_eq 9 (by decide)⟩
  rw [begins]
  have response := beginResponse_isResponse 7
  refine ⟨_, answeredCall_run response begin9 next, fun answered => ?_⟩
  have exit : answeredWait begin9 (beginResponse 7) ++ [.loopTest (some (beginResponse 7).parsed)] <+:
      answeredCall begin9 (beginResponse 7) := ⟨[.clear (some (beginResponse 7).parsed)], rfl⟩
  obtain ⟨r, member, matching⟩ :=
    answered _ _ _ exit (answeredWait_run response begin9 next) _ _ rfl rfl
  have only : beginResponse 7 = r := by
    simpa [answeredWait, sinceWrite, received, List.rtakeWhile, response] using member
  have foreign : ¬ Matches (beginResponse 7) begin9 := by decide +kernel
  exact foreign (only ▸ matching)

end OtaCli.Soundness.Correspondence
