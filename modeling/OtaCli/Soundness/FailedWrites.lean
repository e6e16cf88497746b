import OtaCli.Soundness.SlotHistory
import OtaCli.Soundness.WireTranscript

/-! # Failed writes

`WriteMsg` reports a failed `canWrite` and drops the result of `CheckForError`, so a failure can only
be felt in the wait loop. The loop does not end by itself; but any response that reaches the slot ends
it, also one which no command on the bus has caused. Then the flash goes on with a frame missing.
-/

namespace OtaCli.Soundness.FailedWrites

open Model Model.KvaserInterface Model.FileUpdater LabeledMachine AnsweredCall
open Proofs.FlashTranscript WireTranscript

variable {α : Type}

/-- No response comes in place of the answer to a command that was not sent: the slot is empty when a
`canWrite` fails, and nothing is stored while its caller waits. -/
def NoStrayResponse (tape : List Event) (s : KvaserState α) : Event → Prop
  | .canWrite _ status => status ≠ canOK → s.responsePacket = none
  | .store _ => s.sender.waiting? ≠ none → lastStatus tape = some canOK
  | _ => True

variable {client : Client α} {slot : Option ResponsePacket} {reader : ReaderPc} {events : List Event}
  {s : KvaserState α}

/-- Without stray responses the caller of a failed write waits for ever. -/
private theorem waits_of_failedWrite (run : (machine α).Run ⟨slot, .client client, reader⟩ events s)
    (along : (machine α).Along ⟨slot, .client client, reader⟩ events NoStrayResponse)
    (failed : FailedWrite events) :
    s.sender.waiting? ≠ none ∧ s.responsePacket = none ∧ lastStatus events ≠ some canOK := by
  refine run.invariant_along (I := fun tape s => FailedWrite tape → s.sender.waiting? ≠ none ∧
    s.responsePacket = none ∧ lastStatus tape ≠ some canOK) along ?_ ?_ failed
  · simp [FailedWrite]
  rintro prior middle event next - holds allowed stepped ⟨cmd, status, member, bad⟩
  rcases List.mem_append.mp member with earlier | last
  · obtain ⟨waiting, empty, unsent⟩ := holds ⟨cmd, status, earlier, bad⟩
    cases step_eq_some_iff.mp stepped
    case store => exact absurd (allowed waiting) unsent
    case writeLine => exact absurd rfl waiting
    case canWrite => exact absurd rfl waiting
    case clear => exact absurd rfl waiting
    case loopExit => cases empty
    case canRead => exact ⟨waiting, empty, by simpa using unsent⟩
    case isCancellationRequested => exact ⟨waiting, empty, by simpa using unsent⟩
    all_goals exact ⟨by simp [SenderPc.waiting?], empty, by simpa using unsent⟩
  · obtain rfl := List.mem_singleton.mp last
    cases step_eq_some_iff.mp stepped
    exact ⟨by simp [SenderPc.waiting?], allowed bad, by simpa using bad⟩

/-- While a call is under way and no write has failed, the last one has not. -/
private theorem lastStatus_of_fine (run : (machine α).Run ⟨slot, .client client, reader⟩ events s)
    (inCall : s.sender.call? ≠ none) (fine : ¬ FailedWrite events) : lastStatus events = some canOK := by
  obtain ⟨call, sender⟩ := Option.ne_none_iff_exists'.mp inCall
  obtain ⟨⟨before, status, split⟩, -⟩ := SlotHistory.since_canWrite run sender
  have member : status ∈ events.filterMap Event.status? :=
    List.mem_filterMap.mpr ⟨.canWrite call.cmd status, by rw [split]; simp, rfl⟩
  obtain ⟨last, isLast⟩ : ∃ last, (events.filterMap Event.status?).getLast? = some last :=
    Option.isSome_iff_exists.mp (List.getLast?_isSome.mpr (List.ne_nil_of_mem member))
  obtain ⟨event, inTape, same⟩ := List.mem_filterMap.mp (List.mem_of_getLast? isLast)
  cases event <;> cases same
  by_contra bad
  exact fine ⟨_, _, inTape, fun good => bad (by rw [lastStatus, isLast, good])⟩

/-- Where no write fails, no response is stray. -/
private theorem along_of_fine (fine : ¬ FailedWrite events) :
    (machine α).Along ⟨slot, .client client, reader⟩ events NoStrayResponse := by
  intro prior middle event within before
  have earlier : ¬ FailedWrite prior := fun ⟨cmd, status, member, bad⟩ =>
    fine ⟨cmd, status, within.subset (List.mem_append_left _ member), bad⟩
  cases event with
  | canWrite cmd status => exact fun bad => absurd ⟨cmd, status, within.subset (by simp), bad⟩ fine
  | store packet =>
    exact fun waiting => lastStatus_of_fine before (SenderPc.call_of_waiting waiting) earlier
  | _ => trivial

/-- A failed write is not reported as a successful update in any run whose steps bring no stray
response; and of the runs in which `Update` returns true, these are exactly the ones without a failed
write. -/
theorem failed_write_not_reported (content : List UInt8) (targetDeviceId : UInt8)
    {slot : Option ResponsePacket} {reader : ReaderPc} {events : List Event} {s : KvaserState Bool}
    (run : (machine Bool).Run ⟨slot, .client (update (.ok content) targetDeviceId), reader⟩ events s) :
    ((machine Bool).Along ⟨slot, .client (update (.ok content) targetDeviceId), reader⟩ events
        NoStrayResponse →
      FailedWrite events → s.sender ≠ .client (.ret true)) ∧
    (s.sender = .client (.ret true) →
      ((machine Bool).Along ⟨slot, .client (update (.ok content) targetDeviceId), reader⟩ events
        NoStrayResponse ↔ ¬ FailedWrite events)) := by
  have waits : (machine Bool).Along ⟨slot, .client (update (.ok content) targetDeviceId), reader⟩ events
      NoStrayResponse → FailedWrite events → s.sender ≠ .client (.ret true) := by
    intro along failed returned
    have waiting := (waits_of_failedWrite run along failed).1
    rw [returned] at waiting
    exact waiting rfl
  exact ⟨waits, fun returned => ⟨fun along failed => waits along failed returned, along_of_fine⟩⟩

/-- The first frame of an eight-byte file is not sent, and the caller spins. -/
theorem failed_write_not_reported_while_waiting :
    ∃ s, (machine Bool).Run (start (update (.ok [1, 2, 3, 4, 5, 6, 7, 8]) 9))
        ([.canWrite (lengthPacket Commands.FLASH_BEGIN 9 8) (-13)] ++
          [.canWriteSync canOK, .loopTest none, .loopBody none, .loopTest none]) s ∧
      s.sender ≠ .client (.ret true) := by
  obtain ⟨s, run⟩ : ∃ s, (machine Bool).Run (start (update (.ok [1, 2, 3, 4, 5, 6, 7, 8]) 9))
      ([.canWrite (lengthPacket Commands.FLASH_BEGIN 9 8) (-13)] ++
        [.canWriteSync canOK, .loopTest none, .loopBody none, .loopTest none]) s := by
    rw [update_eq 9 (by decide)]
    exact ⟨_, (Step.canWrite (-13)).cons <| (Step.canWriteSync canOK).cons <| Step.loopAgain.cons <|
      Step.loopBody.cons <| Step.loopAgain.cons <| .refl _⟩
  have first : (machine Bool).Along (start (update (.ok [1, 2, 3, 4, 5, 6, 7, 8]) 9))
      [.canWrite (lengthPacket Commands.FLASH_BEGIN 9 8) (-13)] NoStrayResponse :=
    (Along.concat_iff (.refl _)).mpr ⟨.nil, fun _ => rfl⟩
  have along : (machine Bool).Along (start (update (.ok [1, 2, 3, 4, 5, 6, 7, 8]) 9))
      ([.canWrite (lengthPacket Commands.FLASH_BEGIN 9 8) (-13)] ++
        [.canWriteSync canOK, .loopTest none, .loopBody none, .loopTest none]) NoStrayResponse :=
    first.append (by simp [NoStrayResponse])
  exact ⟨s, run, (failed_write_not_reported _ 9 run).1 along ⟨_, -13, List.mem_cons_self, by decide⟩⟩

/-- A first command that is not sent, and a response which arrives while its caller waits. -/
def strayBegin (content : List UInt8) (targetDeviceId : UInt8) (stray : ReadResult) : List Event :=
  earlyAnswer (lengthPacket Commands.FLASH_BEGIN targetDeviceId content.length) (-13) stray ++
    fullSlot stray.parsed

/-- Any file of full chunks can be flashed to the end after such a beginning. -/
private theorem returns_after_strayBegin {content : List UInt8} (targetDeviceId : UInt8)
    (multiple : 4 ∣ content.length) (readable : content.length ≤ maxLength) {stray : ReadResult}
    (response : stray.IsResponse) :
    ∃ rest, (machine Bool).Run (start (update (.ok content) targetDeviceId))
      (strayBegin content targetDeviceId stray ++ rest) (start (.ret true)) := by
  have performs := update_performs targetDeviceId (.ok content)
  rw [planned_of_readable targetDeviceId readable] at performs
  have returns : (flashTranscript content targetDeviceId).result = .ok true := if_pos multiple
  rw [update_eq targetDeviceId readable] at performs ⊢
  obtain ⟨after, further, same⟩ := Client.performs_call_iff.mp performs
  rw [same] at returns
  obtain ⟨rest, run, -⟩ := exists_run response (further none)
  rw [returns] at run
  exact ⟨rest, ((earlyAnswer_run response _ _ _).append (fullSlot_run _ _ _)).append run⟩

/-- The begin frame of an eight-byte file is not sent, and `Update` returns true. -/
theorem success_after_failed_begin :
    ∃ rest, (machine Bool).Run (start (update (.ok [1, 2, 3, 4, 5, 6, 7, 8]) 9))
        (strayBegin [1, 2, 3, 4, 5, 6, 7, 8] 9 pong ++ rest) (start (.ret true)) ∧
      FailedWrite (strayBegin [1, 2, 3, 4, 5, 6, 7, 8] 9 pong ++ rest) := by
  have multiple : 4 ∣ ([1, 2, 3, 4, 5, 6, 7, 8] : List UInt8).length := by decide
  obtain ⟨rest, run⟩ := returns_after_strayBegin 9 multiple (by decide) pong_isResponse
  exact ⟨rest, run, _, -13, List.mem_cons_self, by decide⟩

end OtaCli.Soundness.FailedWrites
