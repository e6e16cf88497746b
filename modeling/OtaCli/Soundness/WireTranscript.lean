import OtaCli.Proofs.FlashFrames
import OtaCli.Soundness.AnsweredCall

/-! # The transcript of a client on the interface

A client that does the same whatever it is answered is run by the calling thread. Whatever the
driver, the bus and the reader do meanwhile, the tape has recorded an initial part of its transcript
and the thread has the rest before it. For `Update` this gives the frames of a run to completion.
-/

namespace OtaCli.Soundness.WireTranscript

open Model Model.KvaserInterface Model.FileUpdater LabeledMachine AnsweredCall
open Proofs.FlashTranscript Proofs.FlashFrames

variable {α : Type}

/-- What the thread will still do. A call that is under way is already written. -/
def Remaining (sender : SenderPc α) (rest : Transcript α) : Prop :=
  match sender with
  | .client client => client.Performs rest
  | .writeSync call | .loopTest call _ | .loopBody call | .clear call _ =>
    ∀ response, (call.next response).Performs rest

/-- The tape is the first part of the transcript. -/
theorem transcript_of_run {client : Client α} {t : Transcript α} (performs : client.Performs t)
    {slot : Option ResponsePacket} {reader : ReaderPc} {events : List Event} {s : KvaserState α}
    (run : (machine α).Run ⟨slot, .client client, reader⟩ events s) :
    ∃ rest, Remaining s.sender rest ∧
      t = ⟨written events ++ rest.commands, printed events ++ rest.printed, rest.result⟩ := by
  refine run.invariant (I := fun tape (s : KvaserState α) => ∃ rest, Remaining s.sender rest ∧
    t = ⟨written tape ++ rest.commands, printed tape ++ rest.printed, rest.result⟩)
    ⟨t, performs, rfl⟩ ?_
  rintro prior middle event next - ⟨rest, remaining, rfl⟩ stepped
  cases step_eq_some_iff.mp stepped
  case writeLine =>
    obtain ⟨after, further, rfl⟩ := Client.performs_writeLine_iff.mp remaining
    exact ⟨after, further, by simp⟩
  case canWrite =>
    obtain ⟨after, further, rfl⟩ := Client.performs_call_iff.mp remaining
    exact ⟨after, further, by simp⟩
  case clear => exact ⟨rest, remaining _, by simp⟩
  all_goals exact ⟨rest, remaining, by simp⟩

/-- A run to completion has written and printed the whole transcript. -/
theorem transcript_of_returned {client : Client α} {t : Transcript α} (performs : client.Performs t)
    {slot : Option ResponsePacket} {reader : ReaderPc} {events : List Event} {s : KvaserState α}
    {value : α} (run : (machine α).Run ⟨slot, .client client, reader⟩ events s)
    (returned : s.sender = .client (.ret value)) :
    t = ⟨written events, printed events, .ok value⟩ := by
  obtain ⟨rest, remaining, same⟩ := transcript_of_run performs run
  rw [returned] at remaining
  obtain rfl := Client.performs_ret_iff.mp remaining
  simpa using same

/-- `Update` returns true only for a readable file of full chunks. -/
private theorem planned_of_returned {content : List UInt8} {targetDeviceId : UInt8}
    {commands : List CommandPacket} {printed : List Int32}
    (same : planned targetDeviceId (.ok content) = ⟨commands, printed, .ok true⟩) :
    4 ∣ content.length ∧ content.length ≤ maxLength ∧
      commands = (flashTranscript content targetDeviceId).commands := by
  rcases Nat.lt_or_ge maxLength content.length with long | readable
  · rw [planned_of_too_long targetDeviceId long] at same
    cases same
  · rw [planned_of_readable targetDeviceId readable] at same
    refine ⟨?_, readable, (congrArg Transcript.commands same).symm⟩
    by_contra partly
    simp [flashTranscript, partly] at same

/-- The frames of a run to completion decode to the image: a begin frame, the numbered data frames
and an end frame, from any state of the slot and of the reader and in any traffic. -/
theorem wire_transcript (content : List UInt8) (targetDeviceId : UInt8)
    {slot : Option ResponsePacket} {reader : ReaderPc} {events : List Event} {s : KvaserState Bool}
    (run : (machine Bool).Run ⟨slot, .client (update (.ok content) targetDeviceId), reader⟩ events s)
    (returned : s.sender = .client (.ret true)) :
    ∃ first data last, CarriesImage targetDeviceId content ((written events).map (·.mappedMsg))
      first data last := by
  have same := transcript_of_returned (update_performs targetDeviceId (.ok content)) run returned
  obtain ⟨multiple, readable, commands⟩ := planned_of_returned same
  rw [commands]
  exact ⟨_, _, _, flashTranscript_carriesImage targetDeviceId multiple readable⟩

/-- Every readable file has an orderly run to the end, which for a file of full chunks is to return
true and for any other is to throw. -/
private theorem exists_flash_run (content : List UInt8) (targetDeviceId : UInt8)
    (readable : content.length ≤ maxLength) :
    ∃ events, (machine Bool).Run (start (update (.ok content) targetDeviceId)) events
        (start (if 4 ∣ content.length then .ret true else .raise .indexOutOfRange)) ∧
      written events = (flashTranscript content targetDeviceId).commands ∧ ¬ FailedWrite events := by
  have performs := update_performs targetDeviceId (.ok content)
  rw [planned_of_readable targetDeviceId readable] at performs
  obtain ⟨events, run, commands, fine⟩ := exists_run pong_isResponse performs
  refine ⟨events, ?_, commands, fine⟩
  by_cases multiple : 4 ∣ content.length
  · simpa [flashTranscript, multiple] using run
  · simpa [flashTranscript, multiple] using run

theorem wire_transcript_of_eight_bytes :
    ∃ events, (machine Bool).Run (start (update (.ok [1, 2, 3, 4, 5, 6, 7, 8]) 9)) events
        (start (.ret true)) ∧
      ∃ first data last, CarriesImage 9 [1, 2, 3, 4, 5, 6, 7, 8]
        ((written events).map (·.mappedMsg)) first data last := by
  obtain ⟨events, run, -⟩ := exists_flash_run [1, 2, 3, 4, 5, 6, 7, 8] 9 (by decide)
  exact ⟨events, run, wire_transcript _ 9 run rfl⟩

end OtaCli.Soundness.WireTranscript
