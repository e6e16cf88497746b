import OtaCli.Soundness.ProcessProgress

/-! # The calls that never return

`WriteCmdMsgRsp` has no time limit: it leaves its wait only when it sees a response, and only a loop stores one. A
loop goes on to store what it has read, and goes on to read while the token is not cancelled. A call therefore
waits in vain exactly if the slot is empty and every loop there is has ended or is about to see that it is to end;
in every other state there is a way out.
-/

namespace OtaCli.Soundness.Deadlock

open Model Model.Process Interaction LabeledMachine Proofs.Release Proofs.MainCode ProcessRefinement ProcessProgress

variable {code : Code Unit} {tape events : List Process.Event} {s t : State} {call : Activation}

/-- A call that waits in vain. -/
structure Stuck (call : Activation) (s : State) : Prop where
  waits : inWait? s.main = some call
  empty : s.responsePacket = none
  spent : ∀ pc ∈ s.readers, IsSpent s.fields.cancelled pc

/-- A step of a spent loop is its last one, and stores nothing. -/
private theorem ended_of_spent {o : KvaserInterface.Fields} {pc moved : ReaderPc} {event : Lifetime.ReaderEvent}
    (spent : IsSpent o.cancelled pc) (moves : Lifetime.readerStep o pc event = some moved) :
    moved = .ended ∧ ∀ slot, Lifetime.storeResponse slot event = slot := by
  obtain ⟨rfl, rfl, rfl⟩ | ⟨rfl, -⟩ | ⟨packet, rfl, -⟩ := Lifetime.readerStep_cases moves
  · obtain other | ⟨-, cancelled⟩ := spent
    · cases other
    · rw [cancelled]
      exact ⟨rfl, fun _ => rfl⟩
  · obtain other | ⟨other, -⟩ := spent <;> cases other
  · obtain other | ⟨other, -⟩ := spent <;> cases other

theorem Stuck.step {event : Process.Event} (stuck : Stuck call s) (stepped : Process.Step s event t) :
    Stuck call t := by
  obtain ⟨waits, empty, spent⟩ := stuck
  cases stepped
  case main => cases waits
  case canWrite => cases waits
  case clear => cases waits
  case loopExit => cases empty
  case canWriteSync => exact ⟨(inWait_synced _ _).trans waits, empty, spent⟩
  case reportWrite => exact ⟨(inWait_wrote _ _).trans waits, empty, spent⟩
  case reportSync => exact ⟨(inWait_synced _ _).trans waits, empty, spent⟩
  case loopAgain => exact ⟨waits, rfl, spent⟩
  case loopBody => exact ⟨waits, empty, spent⟩
  case reader stands moves =>
    obtain ⟨rfl, unstored⟩ := ended_of_spent (spent _ (List.mem_of_getElem? stands)) moves
    refine ⟨waits, (unstored _).trans empty, fun pc member => ?_⟩
    obtain earlier | rfl := List.mem_or_eq_of_mem_set member
    · exact spent pc earlier
    · exact .inl rfl

theorem Stuck.run (stuck : Stuck call s) (run : Process.machine.Run s events t) : Stuck call t := by
  refine run.invariant (I := fun _ => Stuck call) stuck ?_
  intro prior middle event next _ stuck stepped
  exact stuck.step (step_eq_some_iff.mp stepped).2

end OtaCli.Soundness.Deadlock
