import OtaCli.Machine.Progress
import OtaCli.Proofs.FlashFrames
import OtaCli.Soundness.AnsweredCall
import OtaCli.Soundness.ReaderLifetime

/-! # When a call returns

`WriteCmdMsgRsp` spins until there is a response, without a time limit. A full slot ends that within three steps
of the caller, and nothing the reader does can put it off. After a loop that has ended at most one call returns,
the one which finds the slot full. A driver call and the report of what it has come to are one step here; the
process takes the operations of the report one by one.
-/

namespace OtaCli.Soundness.CallProgress

open Model Model.KvaserInterface LabeledMachine AnsweredCall ReaderLifetime

variable {α : Type} {s t : KvaserState α} {call : Call α} {event : Event} {events : List Event}

/-- A step of the caller in the call, after its `canWrite`. -/
def isOwn : Event → Bool
  | .canWriteSync _ | .loopTest _ | .loopBody _ | .clear _ => true
  | _ => false

def isReturn : Event → Bool
  | .clear _ => true
  | _ => false

/-- The steps of a caller that finds the slot full, up to the one that clears it. -/
def stepsToClear : SenderPc α → ℕ
  | .client _ => 0
  | .clear _ _ => 0
  | .loopTest _ _ => 1
  | .writeSync _ | .loopBody _ => 2

section Full

/-- With a full slot in a call. -/
structure Woken (call : Call α) (s : KvaserState α) : Prop where
  inCall : s.sender.call? = some call
  full : s.responsePacket ≠ none

/-- Only the caller empties the slot, and otherwise each of its steps brings it nearer to that. -/
private theorem ranked_woken (call : Call α) :
    Ranked ((machine α).refusing isReturn) (Woken call) isOwn (fun s => stepsToClear s.sender) := by
  constructor
  rintro s event t ⟨inCall, full⟩ stepped
  obtain ⟨uncleared, stepped⟩ := refusing_step_iff.mp stepped
  cases step_eq_some_iff.mp stepped
  case writeLine => cases inCall
  case canWrite => cases inCall
  case loopAgain => exact absurd rfl full
  case clear => cases uncleared
  case store => exact ⟨⟨inCall, nofun⟩, Nat.le_refl _⟩
  all_goals exact ⟨⟨inCall, full⟩, Nat.le_refl _⟩

theorem Woken.exists_own (woken : Woken call s) :
    ∃ event next, isOwn event = true ∧ (machine α).step s event = some next := by
  obtain ⟨inCall, full⟩ := woken
  rcases s with ⟨slot, sender, reader⟩
  cases sender with
  | client rest => cases inCall
  | writeSync call => exact ⟨_, _, rfl, step_eq_some_iff.mpr (.canWriteSync canOK)⟩
  | loopTest call response =>
    cases slot with
    | none => exact absurd rfl full
    | some packet => exact ⟨_, _, rfl, step_eq_some_iff.mpr .loopExit⟩
  | loopBody call => exact ⟨_, _, rfl, step_eq_some_iff.mpr .loopBody⟩
  | clear call response => exact ⟨_, _, rfl, step_eq_some_iff.mpr .clear⟩

/-- A call that finds the slot full returns with the third of its own steps at the latest, a driver call with its
report being one: until it clears the slot, whatever the reader does in between, the slot stays full, the caller
takes two steps at most, and nothing keeps it from taking the next one. -/
theorem returns_within (inCall : s.sender.call? = some call) (full : s.responsePacket ≠ none)
    (run : (machine α).Run s events t) (uncleared : ∀ returned, .clear returned ∉ events) :
    t.sender.call? = some call ∧ t.responsePacket ≠ none ∧ events.countP isOwn ≤ 2 ∧
      ∃ event next, isOwn event = true ∧ (machine α).step t event = some next := by
  have still : ∀ event ∈ events, isReturn event = false := by
    intro event member
    cases event
    case clear returned => exact absurd member (uncleared returned)
    all_goals rfl
  obtain ⟨woken, left⟩ := (ranked_woken call).run ⟨inCall, full⟩ (refusing_run_iff.mpr ⟨run, still⟩)
  have few : stepsToClear s.sender ≤ 2 := by cases s.sender <;> simp [stepsToClear]
  exact ⟨woken.inCall, woken.full, by omega, woken.exists_own⟩

/-- A call whose response came before its first test. -/
theorem returns_within_at_early_answer :
    ∃ s, (machine Unit).Run (start (.writeCmdMsgRsp ping fun _ => .ret ())) (earlyAnswer ping canOK pong) s ∧
      ∃ event next, isOwn event = true ∧ (machine Unit).step s event = some next := by
  have run := earlyAnswer_run pong_isResponse ping canOK fun _ => (.ret () : Client Unit)
  have full : some pong.parsed ≠ none := nofun
  exact ⟨_, run, (returns_within rfl full (.refl _) (by simp)).2.2.2⟩

end Full

section Empty

/-- What is left to be returned once the loop has ended. -/
def returnsLeft (s : KvaserState α) : ℕ :=
  match s.sender, s.responsePacket with
  | .clear _ _, _ | _, some _ => 1
  | _, none => 0

private theorem ranked_returns :
    Ranked (machine α) (fun s => isRunning s.reader = false) isReturn returnsLeft := by
  constructor
  intro s event t ended stepped
  cases step_eq_some_iff.mp stepped
  case isCancellationRequested => cases ended
  case canRead => cases ended
  case store => cases ended
  case clear slot reader call response =>
    exact ⟨ended, by simp [returnsLeft, isReturn]⟩
  case loopAgain => exact ⟨ended, Nat.le_refl _⟩
  case loopExit => exact ⟨ended, Nat.le_refl _⟩
  case writeLine slot reader value next => cases slot <;> exact ⟨ended, Nat.le_refl _⟩
  case canWrite slot reader cmd next status => cases slot <;> exact ⟨ended, Nat.le_refl _⟩
  case canWriteSync slot reader call status => cases slot <;> exact ⟨ended, Nat.le_refl _⟩
  case loopBody slot reader call => cases slot <;> exact ⟨ended, Nat.le_refl _⟩

/-- A loop that has ended leaves at most one call to return, whatever the client goes on to do: the one that
finds the slot full, or is about to clear it. The next one never does. -/
theorem last_return (ended : isRunning s.reader = false) (run : (machine α).Run s events t) :
    (returned events).length ≤ 1 ∧
    (s.responsePacket = none → (∀ call response, s.sender ≠ .clear call response) → returned events = []) := by
  have counted : (returned events).length = events.countP isReturn := by
    rw [returned, List.length_filterMap_eq_countP]
    congr 1
    funext event
    cases event <;> rfl
  have bound := ranked_returns.countP_le ended run
  rw [← counted] at bound
  rcases s with ⟨slot, sender, reader⟩
  constructor
  · refine bound.trans ?_
    cases sender <;> cases slot <;> simp [returnsLeft]
  · rintro rfl elsewhere
    refine List.length_eq_zero_iff.mp (Nat.le_zero.mp (bound.trans ?_))
    cases sender with
    | clear call response => exact absurd rfl (elsewhere call response)
    | _ => exact Nat.le_refl 0

/-- The response is in the slot when the loop ends, and the call returns. -/
theorem last_return_of_full_slot :
    ∃ t, (machine Unit).Run ⟨some pong.parsed, .writeSync ⟨ping, fun _ => .ret ()⟩, .ended⟩
        (fullSlot pong.parsed) t ∧
      (returned (fullSlot pong.parsed)).length ≤ 1 := by
  have run : (machine Unit).Run ⟨some pong.parsed, .writeSync ⟨ping, fun _ => .ret ()⟩, .ended⟩
      (fullSlot pong.parsed) ⟨none, .client (.ret ()), .ended⟩ :=
    (Step.canWriteSync canOK).cons <| Step.loopExit.cons <| Step.clear.cons <| .refl _
  exact ⟨_, run, (last_return rfl run).1⟩

end Empty

section Clients

/-- A step of the caller, in its own code or in a call. -/
def isCallers : Event → Bool
  | .writeLine _ | .canWrite _ _ => true
  | event => isOwn event

/-- A test of the wait loop that finds the slot empty. -/
def isSpin : Event → Bool
  | .loopTest none => true
  | _ => false

/-- The steps of a client without a spin: four for each call, and one for each number. -/
def clientSteps (client : Client α) : ℕ :=
  4 * (client.transcript []).commands.length + (client.transcript []).printed.length

/-- The steps up to its end, where no answer makes a difference to it. -/
def stepsToEnd : SenderPc α → ℕ
  | .client rest => clientSteps rest
  | .writeSync call | .loopBody call => 3 + clientSteps (call.next none)
  | .loopTest call _ => 2 + clientSteps (call.next none)
  | .clear call _ => 1 + clientSteps (call.next none)

/-- No answer makes a difference to the rest of the client. -/
def Steady : SenderPc α → Prop
  | .client rest => ∃ t, rest.Performs t
  | .writeSync call | .loopTest call _ | .loopBody call | .clear call _ =>
    ∃ t, ∀ response, (call.next response).Performs t

/-- A spin is paid for by the test and by the read after it; every other step brings the caller nearer to its
end. -/
private theorem amortized_steps : Amortized (machine α) (fun s => Steady s.sender) isCallers isSpin 2
    (fun s => stepsToEnd s.sender) := by
  constructor
  intro s event t steady stepped
  cases step_eq_some_iff.mp stepped
  case writeLine slot reader value next =>
    obtain ⟨rest, performs⟩ := steady
    obtain ⟨rest, performs, -⟩ := Client.performs_writeLine_iff.mp performs
    refine ⟨⟨rest, performs⟩, ?_⟩
    simp only [stepsToEnd, clientSteps, Client.transcript, isCallers, isSpin, List.length_cons, Bool.toNat_true,
      Bool.toNat_false]
    omega
  case canWrite slot reader cmd next status =>
    obtain ⟨rest, performs⟩ := steady
    obtain ⟨rest, performs, -⟩ := Client.performs_call_iff.mp performs
    refine ⟨⟨rest, performs⟩, ?_⟩
    simp only [stepsToEnd, clientSteps, Client.transcript, isCallers, isSpin, List.length_cons, List.head?_nil,
      Option.join_none, List.tail_nil, Bool.toNat_true, Bool.toNat_false]
    omega
  case clear slot reader call response =>
    obtain ⟨rest, performs⟩ := steady
    refine ⟨⟨rest, performs response⟩, ?_⟩
    simp only [stepsToEnd, clientSteps, performs none [], performs response [], isCallers, isOwn, isSpin,
      Bool.toNat_true, Bool.toNat_false]
    omega
  all_goals
    refine ⟨steady, ?_⟩
    simp only [stepsToEnd, isCallers, isOwn, isSpin, Bool.toNat_true, Bool.toNat_false]
    omega

/-- The client has returned or raised. -/
def IsOver (s : KvaserState α) : Prop := ∃ outcome : Except Exception α, s.sender = .client (liftM outcome)

/-- Nothing blocks a caller that is not at its end. -/
private theorem exists_callers_step (s : KvaserState α) (going : ¬ IsOver s) :
    ∃ event next, isCallers event = true ∧ (machine α).step s event = some next := by
  rcases s with ⟨slot, sender, reader⟩
  cases sender with
  | client rest =>
    cases rest with
    | ret value => exact absurd ⟨.ok value, rfl⟩ going
    | raise e => exact absurd ⟨.error e, rfl⟩ going
    | writeLine value next => exact ⟨_, _, rfl, step_eq_some_iff.mpr .writeLine⟩
    | writeCmdMsgRsp cmd next => exact ⟨_, _, rfl, step_eq_some_iff.mpr (.canWrite canOK)⟩
  | writeSync call => exact ⟨_, _, rfl, step_eq_some_iff.mpr (.canWriteSync canOK)⟩
  | loopTest call response =>
    cases slot with
    | none => exact ⟨_, _, rfl, step_eq_some_iff.mpr .loopAgain⟩
    | some packet => exact ⟨_, _, rfl, step_eq_some_iff.mpr .loopExit⟩
  | loopBody call => exact ⟨_, _, rfl, step_eq_some_iff.mpr .loopBody⟩
  | clear call response => exact ⟨_, _, rfl, step_eq_some_iff.mpr .clear⟩

/-- Spinning is all that can keep an update from coming to its end. In every run of the flash of a file, on any
bus and however the reader is scheduled, the caller takes no more than five steps for each chunk and eight
besides, and two for each time it finds the slot empty, a driver call with its report being one step; and as long
as it is not at its end, it can take the next one. -/
theorem update_steps (content : List UInt8) (targetDeviceId : UInt8)
    (readable : content.length ≤ FileUpdater.maxLength) {s : KvaserState Bool}
    (run : (machine Bool).Run (start (FileUpdater.update (.ok content) targetDeviceId)) events s) :
    events.countP isCallers ≤ 5 * ((content.length + 3) / 4) + 8 + 2 * events.countP isSpin ∧
    (¬ IsOver s → ∃ event next, isCallers event = true ∧ (machine Bool).step s event = some next) := by
  refine ⟨?_, exists_callers_step s⟩
  have performs := Proofs.FlashTranscript.update_performs targetDeviceId (.ok content)
  rw [Proofs.FlashTranscript.planned_of_readable targetDeviceId readable] at performs
  have steady : Steady (start (FileUpdater.update (.ok content) targetDeviceId)).sender := ⟨_, performs⟩
  have bound := (amortized_steps.run steady run).2
  have chunks : (content.toChunks 4).length = (content.length + 3) / 4 := List.length_toChunks (by decide) _
  have commands : (FileUpdater.flashTranscript content targetDeviceId).commands.length ≤
      (content.length + 3) / 4 + 2 := by
    have full : (FileUpdater.fullChunks content).length ≤ (content.length + 3) / 4 := by
      rw [FileUpdater.fullChunks, List.length_toChunks (by decide), List.length_take]
      omega
    simp only [FileUpdater.flashTranscript, List.length_cons, List.length_append,
      Proofs.FlashFrames.length_dataPackets]
    split <;> simp only [List.length_singleton, List.length_nil] <;> omega
  have printed : (FileUpdater.flashTranscript content targetDeviceId).printed.length =
      (content.length + 3) / 4 := by
    simp [FileUpdater.flashTranscript, chunks]
  simp only [start, stepsToEnd, clientSteps, performs [], printed] at bound
  omega

/-- A flash of two chunks, with a run to its end. -/
theorem update_steps_of_eight_bytes :
    ∃ events s, (machine Bool).Run (start (FileUpdater.update (.ok [1, 2, 3, 4, 5, 6, 7, 8]) 9)) events s ∧
      IsOver s ∧ events.countP isCallers ≤ 18 + 2 * events.countP isSpin := by
  obtain ⟨events, run, -⟩ := exists_run pong_isResponse
    (Proofs.FlashTranscript.update_performs 9 (.ok [1, 2, 3, 4, 5, 6, 7, 8]))
  exact ⟨events, _, run, ⟨_, rfl⟩, (update_steps _ 9 (by decide) run).1⟩

end Clients

end OtaCli.Soundness.CallProgress
