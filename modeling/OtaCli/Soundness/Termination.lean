import OtaCli.Machine.Fairness
import OtaCli.Soundness.ProcessProgress

/-! # What becomes of the process in the end

That the process can come to its end says nothing yet about whether it does. In an execution in which the main
thread is not passed over for ever, it comes to the end of its code exactly if every wait for a response is met by
one. Then the options, the file and `ReadKey` settle what becomes of the whole.
-/

namespace OtaCli.Soundness.Termination

open Model Model.Process Interaction LabeledMachine LabeledMachine.Execution Proofs.Release Proofs.MainCode
open ProcessRefinement ProcessProgress
open ReaderLifetime (isRunning)

variable {source s t : State} {event : Process.Event} {call : Activation} {main : MainPc}

/-- A step of the main thread. -/
def isMain : Process.Event → Bool
  | .reader _ _ => false
  | _ => true

/-- A step of the loop with this number. -/
def isLoop (i : ℕ) : Process.Event → Bool
  | .reader j _ => j == i
  | _ => false

/-- The call in whose wait loop the main thread is. -/
def waiting? : MainPc → Option Activation
  | .loopTest call _ | .loopBody call => some call
  | _ => none

/-- Where a call waits and the slot is empty, a response is stored in the end. -/
def Met (x : Process.machine.Execution source) : Prop :=
  ∀ n, waiting? (x.state n).main ≠ none → (x.state n).responsePacket = none →
    ∃ k, n ≤ k ∧ ∃ i packet, x.event k = some (.reader i (.store packet))

section Steps

theorem main_of_other (stepped : Step s event t) (other : isMain event = false) : t.main = s.main := by
  cases stepped <;> first | rfl | cases other

private theorem not_step_of_ended {outcome : Except Exception Unit} (stepped : Step s event t)
    (ended : s.main = .code (ended outcome)) : isMain event = false := by
  cases stepped
  case main own moves acts =>
    obtain rfl := MainPc.code.inj ended
    exact (step_ended moves).elim
  case canWrite cmd next status =>
    cases outcome <;> cases ended
  case reader => rfl
  all_goals cases ended

/-- In its wait with an empty slot a call goes on waiting, unless a response is stored. -/
private theorem waiting_of_step (waits : waiting? s.main = some call) (empty : s.responsePacket = none)
    (unstored : ∀ i packet, event ≠ .reader i (.store packet)) (stepped : Step s event t) :
    waiting? t.main = some call ∧ t.responsePacket = none := by
  cases stepped
  case main => cases waits
  case canWrite => cases waits
  case canWriteSync => cases waits
  case reportWrite => cases waits
  case reportSync => cases waits
  case loopAgain => exact ⟨waits, rfl⟩
  case loopExit => cases empty
  case loopBody => exact ⟨waits, empty⟩
  case clear => cases waits
  case reader i inner _ _ stands moves =>
    cases inner with
    | store packet => exact absurd rfl (unstored i packet)
    | _ => exact ⟨waits, empty⟩

/-- A wait ends with the step that sees the slot full. -/
private theorem waiting_or_left (waits : waiting? s.main = some call) (stepped : Step s event t) :
    waiting? t.main = some call ∨ ∃ response, t.main = .clear call response := by
  cases stepped
  case main => cases waits
  case canWrite => cases waits
  case canWriteSync => cases waits
  case reportWrite => cases waits
  case reportSync => cases waits
  case loopExit response packet =>
    obtain rfl := Option.some.inj waits
    exact .inr ⟨response, rfl⟩
  case clear => cases waits
  all_goals exact .inl waits

private theorem full_of_store {i : ℕ} {packet : ResponsePacket} (stepped : Step s (.reader i (.store packet)) t) :
    t.responsePacket ≠ none := by
  cases stepped
  nofun

private theorem full_of_stored {slot : Option ResponsePacket} (full : slot ≠ none) (event : Lifetime.ReaderEvent) :
    Lifetime.storeResponse slot event ≠ none := by
  cases event <;> first | exact full | nofun

end Steps

section Calls

variable {x : Process.machine.Execution source}

theorem rule {n : ℕ} (taken : x.event n = some event) : Step (x.state n) event (x.state (n + 1)) :=
  (step_eq_some_iff.mp (x.step taken)).2

/-- Until a response is stored, a call waits. -/
private theorem waits_on {n k : ℕ} (waits : waiting? (x.state n).main = some call)
    (empty : (x.state n).responsePacket = none)
    (unstored : ∀ k, n ≤ k → ∀ i packet, x.event k ≠ some (.reader i (.store packet))) (later : n ≤ k) :
    waiting? (x.state k).main = some call ∧ (x.state k).responsePacket = none := by
  refine x.persists (P := fun s => waiting? s.main = some call ∧ s.responsePacket = none) ?_ ⟨waits, empty⟩ later
  rintro k event later ⟨waits, empty⟩ taken
  exact waiting_of_step waits empty (fun i packet same => unstored k later i packet (same ▸ taken)) (rule taken)

theorem ended_persists {n k : ℕ} {outcome : Except Exception Unit} (ended : (x.state n).main = .code (ended outcome))
    (later : n ≤ k) : (x.state k).main = .code (Interaction.ended outcome) := by
  refine x.persists (P := fun s => s.main = .code (Interaction.ended outcome)) ?_ ended later
  intro k event _ ended taken
  have stepped := rule taken
  exact (main_of_other stepped (not_step_of_ended stepped ended)).trans ended

/-- A main thread that comes to its end has been met in each of its waits. -/
theorem met_of_ended {n : ℕ} (atEnd : MainEnded (x.state n)) : Met x := by
  intro k waits empty
  by_contra unmet
  push Not at unmet
  obtain ⟨call, waits⟩ := Option.ne_none_iff_exists'.mp waits
  have still := (waits_on waits empty (fun j later i packet taken => unmet j later i packet taken)
    (Nat.le_max_left k n)).1
  obtain ⟨outcome, atEnd⟩ := atEnd
  rw [ended_persists atEnd (Nat.le_max_right k n)] at still
  cases still

variable (fair : x.Fair isMain MainEnded)
include fair

/-- The main thread leaves every place but its end, by a step from there. -/
theorem leaves (main : MainPc) (unended : ∀ outcome, main ≠ .code (ended outcome)) :
    x.LeadsTo (·.main = main) (fun t => ∃ s event, s.main = main ∧ isMain event = true ∧ Step s event t) := by
  refine fair.leadsTo ?_ ?_
  · rintro s rfl ⟨outcome, atEnd⟩
    exact absurd atEnd (unended outcome)
  · rintro s event t here stepped
    obtain ⟨-, stepped⟩ := step_eq_some_iff.mp stepped
    cases own : isMain event with
    | true => exact .inr ⟨s, event, here, own, stepped⟩
    | false => exact .inl ⟨rfl, (main_of_other stepped own).trans here⟩

/-- An operation of the code's own is performed. -/
private theorem leaves_own {op : Op} (own : isCall op = false) (next : op.Answer → Code Unit) :
    x.LeadsTo (·.main = .code (.perform op next)) (fun t => ∃ answer, t.main = .code (next answer)) := by
  refine (leaves fair _ fun outcome => by cases outcome <;> nofun).trans (.of_imp ?_)
  rintro t ⟨⟨_, o, slot, readers⟩, event, rfl, isOwn, stepped⟩
  cases stepped
  case main uncalled moves acts =>
    obtain ⟨answer, rfl, rfl⟩ := step_perform_iff.mp moves
    exact ⟨answer, rfl⟩
  case canWrite => cases own
  case reader => cases isOwn

/-- A report in the middle of a call comes to its end. -/
theorem reported {place : Code Bool → MainPc} {done : MainPc} (returned : ∀ value, place (.ret value) = done)
    (unended : ∀ p outcome, place p ≠ .code (ended outcome))
    (performs : ∀ {op next s event t}, s.main = place (.perform op next) → isMain event = true →
      Step s event t → ∃ answer, t.main = place (next answer))
    (raises : ∀ {e s event t}, s.main = place (.raise e) → isMain event = true → ¬ Step s event t)
    (p : Code Bool) :
    x.LeadsTo (·.main = place p) (·.main = done) := by
  induction p with
  | ret value => exact .of_imp fun t here => here.trans (returned value)
  | raise e =>
    refine (leaves fair _ (unended _)).trans (.of_imp ?_)
    rintro t ⟨s, event, here, own, stepped⟩
    exact (raises here own stepped).elim
  | perform op next ih =>
    have performed : x.LeadsTo (·.main = place (.perform op next))
        (fun t => t.main = done ∨ ∃ answer, t.main = place (next answer)) := by
      refine (leaves fair _ (unended _)).trans (.of_imp ?_)
      rintro t ⟨s, event, here, own, stepped⟩
      exact .inr (performs here own stepped)
    exact performed.cases ih

private theorem leaves_wrote (call : Activation) (p : Code Bool) :
    x.LeadsTo (·.main = .wrote call p) (·.main = .writeSync call) := by
  refine reported fair (fun _ => rfl) ?_ ?_ ?_ p
  · rintro (_ | _ | _) outcome <;> nofun
  · rintro op next ⟨_, o, slot, readers⟩ event t rfl own stepped
    cases stepped
    case reportWrite moves =>
      obtain ⟨answer, -, rfl⟩ := step_perform_iff.mp moves
      exact ⟨answer, rfl⟩
    case reader => cases own
  · rintro e ⟨_, o, slot, readers⟩ event t rfl own stepped
    cases stepped
    case reportWrite moves => cases moves
    case reader => cases own

private theorem leaves_synced (call : Activation) (p : Code Bool) :
    x.LeadsTo (·.main = .synced call p) (·.main = .loopTest call none) := by
  refine reported fair (fun _ => rfl) ?_ ?_ ?_ p
  · rintro (_ | _ | _) outcome <;> nofun
  · rintro op next ⟨_, o, slot, readers⟩ event t rfl own stepped
    cases stepped
    case reportSync moves =>
      obtain ⟨answer, -, rfl⟩ := step_perform_iff.mp moves
      exact ⟨answer, rfl⟩
    case reader => cases own
  · rintro e ⟨_, o, slot, readers⟩ event t rfl own stepped
    cases stepped
    case reportSync moves => cases moves
    case reader => cases own

private theorem leaves_call (cmd : CommandPacket) (next : Option ResponsePacket → Code Unit) :
    x.LeadsTo (·.main = .code (.perform (.writeCmdMsgRsp cmd) next)) (·.main = .loopTest ⟨cmd, next⟩ none) := by
  have writes : x.LeadsTo (·.main = .code (.perform (.writeCmdMsgRsp cmd) next)) (fun t =>
      t.main = .writeSync ⟨cmd, next⟩ ∨ ∃ p, t.main = .wrote ⟨cmd, next⟩ p) := by
    refine (leaves fair _ fun outcome => by cases outcome <;> nofun).trans (.of_imp ?_)
    rintro t ⟨⟨_, o, slot, readers⟩, event, rfl, own, stepped⟩
    cases stepped
    case main uncalled moves acts =>
      obtain ⟨answer, rfl, -⟩ := step_perform_iff.mp moves
      cases uncalled
    case canWrite => exact .inr ⟨_, rfl⟩
    case reader => cases own
  have syncs : x.LeadsTo (·.main = .writeSync ⟨cmd, next⟩) (fun t =>
      t.main = .loopTest ⟨cmd, next⟩ none ∨ ∃ p, t.main = .synced ⟨cmd, next⟩ p) := by
    refine (leaves fair _ fun _ same => by cases same).trans (.of_imp ?_)
    rintro t ⟨⟨_, o, slot, readers⟩, event, rfl, own, stepped⟩
    cases stepped
    case canWriteSync => exact .inr ⟨_, rfl⟩
    case reader => cases own
  exact (writes.cases (leaves_wrote fair _)).trans (syncs.cases (leaves_synced fair _))

/-- With a full slot a call leaves its wait. -/
private theorem leaves_full (call : Activation) :
    x.LeadsTo (fun s => waiting? s.main = some call ∧ s.responsePacket ≠ none)
      (fun s => ∃ response, s.main = .clear call response) := by
  have test : x.LeadsTo (fun s => (∃ response, s.main = .loopTest call response) ∧ s.responsePacket ≠ none)
      (fun s => ∃ response, s.main = .clear call response) := by
    refine fair.leadsTo ?_ ?_
    · rintro s ⟨⟨response, here⟩, -⟩ ⟨outcome, atEnd⟩
      cases here.symm.trans atEnd
    · rintro ⟨_, o, slot, readers⟩ event t ⟨⟨response, rfl⟩, full⟩ stepped
      cases (step_eq_some_iff.mp stepped).2
      case loopAgain => exact absurd rfl full
      case loopExit => exact .inr ⟨response, rfl⟩
      case reader stands moves => exact .inl ⟨rfl, ⟨response, rfl⟩, full_of_stored full _⟩
  have body : x.LeadsTo (fun s => s.main = .loopBody call ∧ s.responsePacket ≠ none)
      (fun s => (∃ response, s.main = .loopTest call response) ∧ s.responsePacket ≠ none) := by
    refine fair.leadsTo ?_ ?_
    · rintro s ⟨here, -⟩ ⟨outcome, atEnd⟩
      cases here.symm.trans atEnd
    · rintro ⟨_, o, slot, readers⟩ event t ⟨rfl, full⟩ stepped
      cases (step_eq_some_iff.mp stepped).2
      case loopBody => exact .inr ⟨⟨slot, rfl⟩, full⟩
      case reader stands moves => exact .inl ⟨rfl, rfl, full_of_stored full _⟩
  rintro n ⟨waits, full⟩
  cases here : (x.state n).main <;> rw [here] at waits <;> cases waits
  case loopTest response => exact test n ⟨⟨response, here⟩, full⟩
  case loopBody => exact body.trans test n ⟨here, full⟩

/-- A call returns, if all waits are met. -/
private theorem returns (met : Met x) (cmd : CommandPacket) (next : Option ResponsePacket → Code Unit) :
    x.LeadsTo (·.main = .code (.perform (.writeCmdMsgRsp cmd) next))
      (fun s => ∃ response, s.main = .code (next response)) := by
  have waits : x.LeadsTo (fun s => waiting? s.main = some ⟨cmd, next⟩)
      (fun s => ∃ response, s.main = .clear ⟨cmd, next⟩ response) := by
    intro n waits
    by_cases empty : (x.state n).responsePacket = none
    · obtain ⟨k, later, i, packet, stored⟩ := met n (by rw [waits]; nofun) empty
      obtain still | ⟨j, after, -, left⟩ := x.stays (P := fun s => waiting? s.main = some ⟨cmd, next⟩)
        (Q := fun s => ∃ response, s.main = .clear ⟨cmd, next⟩ response)
        (fun later waits taken => waiting_or_left waits (rule taken)) waits (Nat.le_succ_of_le later)
      · obtain ⟨j, last, left⟩ := leaves_full fair _ (k + 1) ⟨still, full_of_store (rule stored)⟩
        exact ⟨j, (Nat.le_succ_of_le later).trans last, left⟩
      · exact ⟨j, after, left⟩
    · exact leaves_full fair _ n ⟨waits, empty⟩
  have clears (response : Option ResponsePacket) : x.LeadsTo (·.main = .clear ⟨cmd, next⟩ response)
      (fun s => ∃ response, s.main = .code (next response)) := by
    refine (leaves fair _ fun _ same => by cases same).trans (.of_imp ?_)
    rintro t ⟨⟨_, o, slot, readers⟩, event, rfl, own, stepped⟩
    cases stepped
    case clear => exact ⟨response, rfl⟩
    case reader => cases own
  have begun : x.LeadsTo (·.main = .loopTest ⟨cmd, next⟩ none) (fun s => waiting? s.main = some ⟨cmd, next⟩) :=
    .of_imp fun s here => by rw [here]; rfl
  exact (leaves_call fair cmd next).trans <| begun.trans <| (waits.trans (.of_imp fun s => .inr)).cases clears

/-- Code whose waits are all met comes to its end. -/
private theorem ends_of_met (met : Met x) (p : Code Unit) : x.LeadsTo (·.main = .code p) MainEnded := by
  induction p with
  | ret value => exact .of_imp fun s here => ⟨.ok value, here⟩
  | raise e => exact .of_imp fun s here => ⟨.error e, here⟩
  | perform op next ih =>
    have goes : x.LeadsTo (·.main = .code (.perform op next)) (fun s => ∃ answer, s.main = .code (next answer)) := by
      cases own : isCall op with
      | false => exact leaves_own fair own next
      | true =>
        cases op <;> cases own
        exact returns fair met _ next
    exact (goes.trans (.of_imp fun s => .inr)).cases ih

end Calls

/-- A flash of two chunks, as an execution that goes to the end of all threads. -/
theorem exists_finished_execution : ∃ (x : Process.machine.Execution
    (new (Program.main (some { interface := 0 }) fun _ => .ok [1, 2, 3, 4, 5, 6, 7, 8]))) (n : ℕ),
    (x.state n).readers ≠ [] ∧ ∀ k, n ≤ k → Finished (x.state k) := by
  have opened := opened_run { interface := 0 } (fun _ => .ok [1, 2, 3, 4, 5, 6, 7, 8]) rfl
  have flashable : Flashable (.ok [1, 2, 3, 4, 5, 6, 7, 8]) := ⟨_, rfl, by decide⟩
  have unthrown : ¬ KeyThrown (performed (firstOpened.map .main)) := by
    rintro ⟨e, member⟩
    have opening : ⟨.readKey, .error e⟩ ∈ firstOpened ++ [] := by simpa using member
    exact not_readKey_of_isUpdating firstOpened_ends (by simp) _ opening
  obtain ⟨events, t, later, finished⟩ := (can_finish_iff opened (by simp)).mpr ⟨rfl, .inr flashable, unthrown⟩
  obtain ⟨x, n, rests⟩ := (opened.append later).exists_execution
  refine ⟨x, n, ?_, fun k after => ?_⟩
  · rw [rests n le_rfl]
    exact started_of_run (by simp) later
  · rw [rests k after]
    exact finished

/-- Termination of the main thread, exactly. Whatever its code is (code that has no endless loop of its own), in
every execution in which it is not passed over for ever it comes to its end, by return or by an exception, if and
only if each of its waits is met: wherever it is in the wait loop of a call and the slot is empty, a loop stores a
response in the end. -/
theorem ends_iff_met (code : Code Unit) (x : Process.machine.Execution (new code)) (fair : x.Fair isMain MainEnded) :
    (∃ n, MainEnded (x.state n)) ↔ Met x := by
  constructor
  · rintro ⟨n, atEnd⟩
    exact met_of_ended atEnd
  · intro met
    obtain ⟨n, -, atEnd⟩ := ends_of_met fair met code 0 (congrArg State.main x.start)
    exact ⟨n, atEnd⟩

theorem ends_iff_met_of_eight_bytes :
    ∃ (x : Process.machine.Execution
        (new (Program.main (some { interface := 0 }) fun _ => .ok [1, 2, 3, 4, 5, 6, 7, 8]))),
      x.Fair isMain MainEnded ∧ Met x := by
  obtain ⟨x, n, -, finished⟩ := exists_finished_execution
  have fair : x.Fair isMain MainEnded := fair_of_done fun k later => ⟨.ok (), (finished k later).1⟩
  exact ⟨x, fair, (ends_iff_met _ x fair).mp ⟨n, .ok (), (finished n le_rfl).1⟩⟩

section Loop

variable {x : Process.machine.Execution source} {r : ReaderPc}

/-- The loop with this number has no step to take. -/
def LoopIdle (i : ℕ) (s : State) : Prop :=
  s.crashed = true ∨ ∀ pc, s.readers[i]? = some pc → isRunning pc = false

/-- The main thread has returned, and has cancelled the token of the one loop. -/
def LeftTo (r : ReaderPc) (s : State) : Prop :=
  s.main = .code (.ret ()) ∧ s.fields.cancelled = true ∧ s.readers = [r]

variable (fair : x.Fair (isLoop 0) (LoopIdle 0))
include fair

private theorem loop_leaves (running : isRunning r = true) : x.LeadsTo (LeftTo r)
    (fun t => ∃ o event moved, o.cancelled = true ∧ Lifetime.readerStep o r event = some moved ∧
      LeftTo moved t) := by
  refine fair.leadsTo ?_ ?_
  · rintro ⟨_, o, slot, _⟩ ⟨rfl, -, rfl⟩ (crashed | idle)
    · simp [State.crashed, MainPc.hasRaised, sound_of_running running] at crashed
    · cases running.symm.trans (idle r rfl)
  · rintro ⟨_, o, slot, _⟩ event t ⟨rfl, cancelled, rfl⟩ stepped
    cases (step_eq_some_iff.mp stepped).2
    case main own moves acts => cases moves
    case reader i inner reader moved moves stands =>
      obtain ⟨rfl, rfl⟩ : i = 0 ∧ r = reader := by simpa [List.getElem?_singleton] using stands
      exact .inr ⟨o, inner, moved, cancelled, moves, rfl, cancelled, rfl⟩

/-- A loop that is told to end does. -/
private theorem loop_ends (uncrashed : isCrashed r = false) : x.LeadsTo (LeftTo r) Finished := by
  have check : x.LeadsTo (LeftTo .check) Finished := by
    refine (loop_leaves fair rfl).trans (.of_imp ?_)
    rintro t ⟨o, event, moved, cancelled, moves, returned, -, readers⟩
    obtain ⟨-, -, rfl⟩ | ⟨other, -⟩ | ⟨_, other, -⟩ := Lifetime.readerStep_cases moves
    · refine ⟨returned, fun pc member => ?_⟩
      rw [readers, cancelled] at member
      exact List.mem_singleton.mp member
    · cases other
    · cases other
  have store (packet : ResponsePacket) : x.LeadsTo (LeftTo (.store packet)) Finished := by
    refine ((loop_leaves fair rfl).trans (.of_imp ?_)).trans check
    rintro t ⟨o, event, moved, cancelled, moves, left⟩
    obtain ⟨other, -⟩ | ⟨other, -⟩ | ⟨_, -, -, rfl⟩ := Lifetime.readerStep_cases moves
    · cases other
    · cases other
    · exact left
  cases r with
  | check => exact check
  | store packet => exact store packet
  | read =>
    have reads : x.LeadsTo (LeftTo .read) (fun t => (Finished t ∨ ∃ packet, LeftTo (.store packet) t) ∨
        ∃ _ : Unit, LeftTo .check t) := by
      refine (loop_leaves fair rfl).trans (.of_imp ?_)
      rintro t ⟨o, event, moved, cancelled, moves, left⟩
      obtain ⟨other, -⟩ | ⟨-, result, -, rfl⟩ | ⟨_, other, -⟩ := Lifetime.readerStep_cases moves
      · cases other
      · rw [ReviverLoop.afterRead_eq] at left
        split at left
        · exact .inl (.inr ⟨_, left⟩)
        · exact .inr ⟨(), left⟩
      · cases other
    exact (reads.cases fun _ => check.trans (.of_imp fun t => .inl)).cases store
  | ended =>
    refine .of_imp fun t ⟨returned, _, readers⟩ => ⟨returned, fun pc member => ?_⟩
    rw [readers] at member
    exact List.mem_singleton.mp member
  | crashed e => cases uncrashed

end Loop

section Outcome

variable {options : CommandLineOptions} {files : String → File}
  {x : Process.machine.Execution (new (Program.main (some options) files))} {n k : ℕ}

private theorem finished_persists (finished : Finished (x.state n)) (later : n ≤ k) : Finished (x.state k) := by
  refine x.persists (P := Finished) ?_ finished later
  rintro k event - ⟨returned, ends⟩ taken
  have stepped := rule taken
  generalize x.state k = s at stepped returned ends
  generalize x.state (k + 1) = t at stepped
  rcases s with ⟨_, o, slot, readers⟩
  obtain rfl := returned
  cases stepped
  case main own moves acts => cases moves
  case reader moves stands =>
    rw [ends _ (List.mem_of_getElem? stands)] at moves
    cases moves

private theorem crashed_persists (crashed : (x.state n).crashed = true) (later : n ≤ k) :
    (x.state k).crashed = true := by
  refine x.persists (P := fun s => s.crashed = true) ?_ crashed later
  intro k event _ crashed taken
  cases crashed.symm.trans (step_eq_some_iff.mp (x.step taken)).1

theorem started_persists (started : (x.state n).readers ≠ []) (later : n ≤ k) : (x.state k).readers ≠ [] := by
  refine x.persists (P := fun s => s.readers ≠ []) ?_ started later
  exact fun _ started taken => started_of_run started (Run.singleton_iff.mpr (x.step taken))

/-- `Main` starts one loop. -/
private theorem one_loop (started : (x.state n).readers ≠ []) : ∃ r, (x.state n).readers = [r] := by
  obtain ⟨k, -, ⟨-, -, reads⟩, -⟩ := agrees_of_run (x.run n)
  obtain ⟨none, -⟩ | alone := reads
  · exact absurd none started
  · exact ⟨_, alone⟩

/-- What has been performed stays performed. -/
theorem keyThrown_persists (thrown : KeyThrown (performed (x.tape n))) (later : n ≤ k) :
    KeyThrown (performed (x.tape k)) := by
  obtain ⟨e, member⟩ := thrown
  exact ⟨e, ((x.tape_prefix later).filterMap _).subset member⟩

section AtEnd

variable {outcome : Except Exception Unit} {m : ℕ} (ended : (x.state m).main = .code (ended outcome))
  (started : (x.state m).readers ≠ [])
include ended started

/-- From its end on, the main thread stays there. -/
theorem outcome_of_ended (later : m ≤ k) :
    Outcome options files (performed (x.tape k)) (x.state k).fields.cancelled outcome :=
  end_cases (x.run k) (ended_persists ended later) (started_persists started later)

private theorem finishes_iff (loop : x.Fair (isLoop 0) (LoopIdle 0)) : (∃ k, Finished (x.state k)) ↔
    options.scan = false ∧ (options.onlineMode = true ∨ Flashable (files options.binary)) ∧
      ¬ ∃ k, KeyThrown (performed (x.tape k)) := by
  constructor
  · rintro ⟨k, finished⟩
    have known {j : ℕ} (after : m ≤ j) (later : k ≤ j) := (can_finish_iff (x.run j)
      (started_persists started after)).mp ⟨[], _, .refl _, finished_persists finished later⟩
    obtain ⟨scan, good, -⟩ := known (Nat.le_max_left m k) (Nat.le_max_right m k)
    refine ⟨scan, good, fun ⟨j, thrown⟩ => ?_⟩
    have later := Nat.le_max_right j (max m k)
    exact (known ((Nat.le_max_left m k).trans later) ((Nat.le_max_right m k).trans later)).2.2
      (keyThrown_persists thrown (Nat.le_max_left j _))
  · rintro ⟨scan, good, unthrown⟩
    obtain ⟨r, alone⟩ := one_loop started
    cases outcome_of_ended ended started le_rfl with
    | scanned other => cases scan.symm.trans other
    | raised _ fails => exact absurd good fails
    | thrown _ _ throws => exact absurd ⟨m, throws⟩ unthrown
    | closed _ _ told =>
      have uncrashed := (loopsSound_of_run (x.run m) r (by rw [alone]; exact List.mem_singleton_self r)).1
      obtain ⟨k, -, finished⟩ := loop_ends loop uncrashed m ⟨ended, told, alone⟩
      exact ⟨k, finished⟩

private theorem crashes_iff : (∃ k, (x.state k).crashed = true) ↔
    options.scan = false ∧ (options.onlineMode = false ∧ ¬ Flashable (files options.binary) ∨
      ∃ k, KeyThrown (performed (x.tape k))) := by
  constructor
  · rintro ⟨k, crashed⟩
    obtain ⟨e, result⟩ := outcome_of_crashed (x.run _) (started_persists started (Nat.le_max_left m k))
      (crashed_persists crashed (Nat.le_max_right m k))
    cases result with
    | raised scan fails => exact ⟨scan, .inl (by simpa using fails)⟩
    | thrown scan _ throws => exact ⟨scan, .inr ⟨_, throws⟩⟩
  · rintro ⟨scan, reason⟩
    -- the one end without an exception is the one that is not for this reason
    cases outcome with
    | error e => exact ⟨m, (crashed_of_loopsSound (loopsSound_of_run (x.run m))).mpr ⟨e, ended⟩⟩
    | ok value =>
      obtain ⟨offline, broken⟩ | ⟨k, thrown⟩ := reason
      · cases outcome_of_ended ended started le_rfl with
        | scanned other => cases scan.symm.trans other
        | closed _ updates => simp [offline, broken] at updates
      · cases outcome_of_ended ended started (Nat.le_max_left m k) with
        | scanned other => cases scan.symm.trans other
        | closed _ _ _ _ unthrown => exact absurd (keyThrown_persists thrown (Nat.le_max_right m k)) unthrown

end AtEnd

/-- What becomes of the process. In every execution in which neither the main thread nor its loop is passed over
for ever and every wait is met, once the loop has been started: all threads come to their end exactly if no scan
was asked for, the update is online or has a file that can be read and has only full chunks, and `ReadKey` never
throws; an exception ends the process exactly if an update was asked for whose file is not so, or `ReadKey`
throws. -/
theorem becomes (options : CommandLineOptions) (files : String → File)
    (x : Process.machine.Execution (new (Program.main (some options) files)))
    (main : x.Fair isMain MainEnded) (loop : x.Fair (isLoop 0) (LoopIdle 0)) (met : Met x)
    (started : (x.state n).readers ≠ []) :
    ((∃ k, Finished (x.state k)) ↔
      options.scan = false ∧ (options.onlineMode = true ∨ Flashable (files options.binary)) ∧
        ¬ ∃ k, KeyThrown (performed (x.tape k))) ∧
    ((∃ k, (x.state k).crashed = true) ↔
      options.scan = false ∧ (options.onlineMode = false ∧ ¬ Flashable (files options.binary) ∨
        ∃ k, KeyThrown (performed (x.tape k)))) := by
  obtain ⟨m, outcome, ended⟩ := (ends_iff_met _ x main).mpr met
  have stays := ended_persists ended (Nat.le_max_left m n)
  have there := started_persists started (Nat.le_max_right m n)
  exact ⟨finishes_iff stays there loop, crashes_iff stays there⟩

theorem becomes_of_eight_bytes :
    ∃ (x : Process.machine.Execution
        (new (Program.main (some { interface := 0 }) fun _ => .ok [1, 2, 3, 4, 5, 6, 7, 8]))),
      (∃ k, Finished (x.state k)) ∧ ¬ (∃ k, KeyThrown (performed (x.tape k))) ∧
        ¬ ∃ k, (x.state k).crashed = true := by
  obtain ⟨x, n, started, finished⟩ := exists_finished_execution
  have main : x.Fair isMain MainEnded := fair_of_done fun k later => ⟨.ok (), (finished k later).1⟩
  have loop : x.Fair (isLoop 0) (LoopIdle 0) := by
    refine fair_of_done (n := n) fun k later => .inr fun pc stands => ?_
    rw [(finished k later).2 pc (List.mem_of_getElem? stands)]
    rfl
  have flashable : Flashable (.ok [1, 2, 3, 4, 5, 6, 7, 8]) := ⟨_, rfl, by decide⟩
  obtain ⟨ends, crashes⟩ := becomes { interface := 0 } (fun _ => .ok [1, 2, 3, 4, 5, 6, 7, 8]) x main loop
    (met_of_ended ⟨.ok (), (finished n le_rfl).1⟩) started
  have unthrown := (ends.mp ⟨n, finished n le_rfl⟩).2.2
  refine ⟨x, ⟨n, finished n le_rfl⟩, unthrown, fun crashed => ?_⟩
  exact (crashes.mp crashed).2.elim (fun broken => broken.2 flashable) unthrown

end Outcome

end OtaCli.Soundness.Termination
