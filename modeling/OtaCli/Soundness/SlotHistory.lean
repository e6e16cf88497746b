import OtaCli.Machine.Mailbox
import OtaCli.Machine.Refinement
import OtaCli.Soundness.AnsweredCall

/-! # The response slot in arbitrary traffic

The two threads use `_responsePacket` as a mailbox, and simulate it. That gives what holds of the
slot whatever the bus carries: no response ends two waits, so the sender is never more than one
command ahead of the stores, and a response stored during a call is still there when it is looked for.
-/

namespace OtaCli.Soundness.SlotHistory

open Model Model.KvaserInterface LabeledMachine AnsweredCall

variable {α : Type}

/-- The operations of the two threads on the slot. The read in the loop body is not one of them: it
neither ends the wait nor empties the slot. -/
@[simp] def slotOp? : Event → Option (Mailbox.Op ResponsePacket)
  | .store packet => some (.put packet)
  | .loopTest seen => some (.poll seen)
  | .clear _ => some .clear
  | _ => none

def Clearing : SenderPc α → Prop
  | .clear _ _ => True
  | _ => False

/-- The slot is the cell, and the caller between its last test and its clear is the taking reader. -/
structure SlotIsBox (s : KvaserState α) (box : Mailbox.Box ResponsePacket) : Prop where
  content : box.content = s.responsePacket
  taking : box.taking = true ↔ Clearing s.sender

theorem slot_simulates (source : KvaserState α) :
    Simulates (machine α) (Mailbox.machine ResponsePacket) slotOp? (fun _ => SlotIsBox) source := by
  constructor
  rintro events ⟨slot, sender, reader⟩ ⟨content, taking⟩ event next - ⟨rfl, atClear⟩ stepped
  cases step_eq_some_iff.mp stepped
  case writeLine => exact ⟨_, .refl _, rfl, by simpa [Clearing] using atClear⟩
  case canWrite => exact ⟨_, .refl _, rfl, by simpa [Clearing] using atClear⟩
  case canWriteSync => exact ⟨_, .refl _, rfl, by simpa [Clearing] using atClear⟩
  case loopBody => exact ⟨_, .refl _, rfl, by simpa [Clearing] using atClear⟩
  case isCancellationRequested => exact ⟨_, .refl _, rfl, atClear⟩
  case canRead => exact ⟨_, .refl _, rfl, atClear⟩
  case loopAgain =>
    refine ⟨⟨none, false⟩, ?_, rfl, by simp [Clearing]⟩
    simpa [Mailbox.machine, Mailbox.step, Clearing] using atClear
  case loopExit packet =>
    refine ⟨⟨some packet, true⟩, ?_, rfl, by simp [Clearing]⟩
    simpa [Mailbox.machine, Mailbox.step, Clearing] using atClear
  case clear =>
    refine ⟨⟨none, false⟩, ?_, rfl, by simp [Clearing]⟩
    simpa [Mailbox.machine, Mailbox.step, Mailbox.idle, Clearing] using atClear
  case store packet =>
    exact ⟨⟨some packet, taking⟩, Run.singleton_iff.mpr rfl, rfl, atClear⟩

/-- From a thread in its own code, every run of the interface is a run of the mailbox. -/
theorem mailbox_run {slot : Option ResponsePacket} {client : Client α} {reader : ReaderPc}
    {events : List Event} {s : KvaserState α}
    (run : (machine α).Run ⟨slot, .client client, reader⟩ events s) :
    ∃ box, (Mailbox.machine _).Run (Mailbox.idle slot) (events.filterMap slotOp?) box ∧
      SlotIsBox s box :=
  (slot_simulates _).run ⟨rfl, by simp [Mailbox.idle, Clearing]⟩ run

theorem puts_slotOp (events : List Event) : Mailbox.puts (events.filterMap slotOp?) = stored events := by
  rw [Mailbox.puts, List.filterMap_filterMap]
  congr
  funext event
  cases event <;> rfl

private theorem takes_slotOp (events : List Event) :
    Mailbox.takes (events.filterMap slotOp?) = observed events := by
  rw [Mailbox.takes, List.filterMap_filterMap]
  congr
  funext event
  cases event <;> rfl

/-- The reader stores the packets of the responses it receives, one by one and in order. -/
theorem stored_of_received {client : Client α} {events : List Event} {s : KvaserState α}
    (run : (machine α).Run (start client) events s) :
    (received events).map ReadResult.parsed = stored events ++ s.reader.held.toList := by
  refine run.invariant (I := fun tape s =>
    (received tape).map ReadResult.parsed = stored tape ++ s.reader.held.toList) rfl ?_
  rintro prior middle event next - holds stepped
  cases step_eq_some_iff.mp stepped
  case canRead result =>
    by_cases response : result.IsResponse
    · simpa [response] using holds
    · simpa [response] using holds
  all_goals simpa using holds

/-- How the calls begun, the waits ended and the calls returned differ, by the caller's position. -/
theorem call_counts {client : Client α} {events : List Event} {s : KvaserState α}
    (run : (machine α).Run (start client) events s) :
    (written events).length = (returned events).length + s.sender.call?.toList.length ∧
      (written events).length = (observed events).length + s.sender.waiting?.toList.length := by
  refine run.invariant (I := fun tape s =>
    (written tape).length = (returned tape).length + s.sender.call?.toList.length ∧
      (written tape).length = (observed tape).length + s.sender.waiting?.toList.length) ⟨rfl, rfl⟩ ?_
  rintro prior middle event next - ⟨calls, waits⟩ stepped
  cases step_eq_some_iff.mp stepped
  all_goals simpa [SenderPc.call?, SenderPc.waiting?] using And.intro calls waits

/-- The number of the received response behind the packet in the slot: that of the last store. -/
def slotFrame (events : List Event) : ℕ := (stored events).length - 1

private theorem mailbox_run_of_exit {client : Client α} {before events : List Event}
    {packet : ResponsePacket} {s : KvaserState α} (run : (machine α).Run (start client) events s)
    (exit : before ++ [.loopTest (some packet)] <+: events) :
    ∃ box, (Mailbox.machine _).Run (Mailbox.idle none)
      (before.filterMap slotOp? ++ [.poll (some packet)]) box := by
  obtain ⟨middle, _, _, cut, _⟩ := run.cut exit
  obtain ⟨box, ops, _⟩ := mailbox_run cut
  exact ⟨box, by simpa [List.filterMap_append] using ops⟩

/-- A wait ends on the packet of the response which the slot was last filled with. -/
theorem exit_frame {client : Client α} {before events : List Event} {packet : ResponsePacket}
    {s : KvaserState α} (run : (machine α).Run (start client) events s)
    (exit : before ++ [.loopTest (some packet)] <+: events) :
    (stored before)[slotFrame before]? = some packet ∧
      ∃ frame, (received before)[slotFrame before]? = some frame ∧
        Packet.ofCanMsg frame.toCanMsg = .ok packet := by
  obtain ⟨box, ops⟩ := mailbox_run_of_exit run exit
  have last : (stored before)[slotFrame before]? = some packet := by
    rw [slotFrame, ← List.getLast?_eq_getElem?, ← puts_slotOp]
    exact Mailbox.last_put_of_take ops
  refine ⟨last, ?_⟩
  obtain ⟨middle, _, _, cut, _⟩ := run.cut ((List.prefix_append _ _).trans exit)
  have inside : slotFrame before < (stored before).length := (List.getElem?_eq_some_iff.mp last).1
  have parsed := congrArg (·[slotFrame before]?) (stored_of_received cut)
  simp only [List.getElem?_map, List.getElem?_append_left inside, last, Option.map_eq_some_iff] at parsed
  obtain ⟨frame, received, rfl⟩ := parsed
  exact ⟨frame, received, frame.ofCanMsg_toCanMsg⟩

/-- Two waits end on different responses. -/
private theorem exit_frames_increase {client : Client α} {first second events : List Event}
    {packet other : ResponsePacket} {s : KvaserState α}
    (run : (machine α).Run (start client) events s)
    (earlier : first ++ [.loopTest (some packet)] <+: second)
    (exit : second ++ [.loopTest (some other)] <+: events) : slotFrame first < slotFrame second := by
  obtain ⟨box, ops⟩ := mailbox_run_of_exit run exit
  have viewed := earlier.filterMap slotOp?
  rw [List.filterMap_append] at viewed
  have between := Mailbox.puts_lt_of_takes ops viewed
  have filled := (exit_frame run (earlier.trans ((List.prefix_append _ _).trans exit))).1
  have inside := (List.getElem?_eq_some_iff.mp filled).1
  rw [puts_slotOp, puts_slotOp] at between
  simp only [slotFrame] at inside ⊢
  omega

/-- Responses are used at most once, whatever the traffic. Every wait ends on the packet of one of the
responses stored before, no two waits on the same one, and so the calls that have returned are no more
than the stored responses, and the commands written no more than one beyond them. -/
theorem responses_used_once (client : Client α) {events : List Event} {s : KvaserState α}
    (run : (machine α).Run (start client) events s) :
    (∀ before packet, before ++ [.loopTest (some packet)] <+: events →
      (stored before)[slotFrame before]? = some packet ∧
        ∃ frame, (received before)[slotFrame before]? = some frame ∧
          Packet.ofCanMsg frame.toCanMsg = .ok packet) ∧
    (∀ first second packet other, first ++ [.loopTest (some packet)] <+: second →
      second ++ [.loopTest (some other)] <+: events → slotFrame first < slotFrame second) ∧
    (returned events).length ≤ (stored events).length ∧
    (written events).length ≤ (stored events).length + 1 := by
  refine ⟨fun _ _ exit => exit_frame run exit,
    fun _ _ _ _ earlier exit => exit_frames_increase run earlier exit, ?_⟩
  obtain ⟨box, ops, -⟩ := mailbox_run run
  have taken := (Mailbox.fresh_of_run ops).taken
  rw [takes_slotOp, puts_slotOp] at taken
  obtain ⟨calls, waits⟩ := call_counts run
  have waiting_of_call : s.sender.waiting?.toList.length ≤ s.sender.call?.toList.length := by
    cases s.sender <;> simp [SenderPc.waiting?, SenderPc.call?]
  have one : s.sender.waiting?.toList.length ≤ 1 := Option.length_toList_le
  constructor <;> omega

theorem responses_used_once_in_two_calls :
    slotFrame (answeredWait ping pong) < slotFrame (answeredCall ping pong ++ answeredWait ping pong) := by
  have second : (machine Unit).Run _ (answeredCall ping pong) _ :=
    answeredCall_run pong_isResponse ping fun _ => .ret ()
  have first : (machine Unit).Run _ (answeredCall ping pong) _ :=
    answeredCall_run pong_isResponse ping fun _ => .writeCmdMsgRsp ping fun _ => .ret ()
  have earlier : answeredWait ping pong ++ [.loopTest (some pong.parsed)] <+:
      answeredCall ping pong ++ answeredWait ping pong :=
    ⟨.clear (some pong.parsed) :: answeredWait ping pong, rfl⟩
  have exit : answeredCall ping pong ++ answeredWait ping pong ++ [.loopTest (some pong.parsed)] <+:
      answeredCall ping pong ++ answeredCall ping pong := ⟨[.clear (some pong.parsed)], rfl⟩
  exact (responses_used_once _ (first.append second)).2.1 _ _ _ _ earlier exit

/-- A call that is under way was begun by the last `canWrite`, and has not cleared since. -/
theorem since_canWrite {client : Client α} {slot : Option ResponsePacket} {reader : ReaderPc}
    {events : List Event} {s : KvaserState α} {call : Call α}
    (run : (machine α).Run ⟨slot, .client client, reader⟩ events s)
    (inCall : s.sender.call? = some call) :
    (∃ before status, events = before ++ .canWrite call.cmd status :: sinceWrite events) ∧
      ∀ returned, .clear returned ∉ sinceWrite events := by
  refine run.invariant (I := fun tape s => ∀ call, s.sender.call? = some call →
    (∃ before status, tape = before ++ .canWrite call.cmd status :: sinceWrite tape) ∧
      ∀ returned, .clear returned ∉ sinceWrite tape) (by simp [SenderPc.call?]) ?_ call inCall
  rintro prior middle event next - holds stepped call inCall
  cases step_eq_some_iff.mp stepped
  case canWrite status =>
    obtain rfl := Option.some.inj inCall
    simp
  case writeLine => simp [SenderPc.call?] at inCall
  case clear => simp [SenderPc.call?] at inCall
  all_goals
    obtain ⟨⟨before, status, split⟩, uncleared⟩ := holds call inCall
    refine ⟨⟨before, status, ?_⟩, by simpa using uncleared⟩
    simp only [sinceWrite_concat, Event.written?, Option.isNone_none, ↓reduceIte]
    rw [← List.cons_append, ← List.append_assoc, ← split]

/-- Every state is related to some box. -/
private theorem exists_box (s : KvaserState α) : ∃ box, SlotIsBox s box := by
  rcases s with ⟨slot, sender, reader⟩
  cases sender with
  | clear => exact ⟨⟨slot, true⟩, rfl, by simp [Clearing]⟩
  | _ => exact ⟨⟨slot, false⟩, rfl, by simp [Clearing]⟩

/-- No wake-up is lost: while a call is under way, a response stored since its `canWrite` keeps the
slot full, so no caller waits on an empty slot although a response was already stored for it. -/
theorem no_lost_wakeup (client : Client α) {slot : Option ResponsePacket} {reader : ReaderPc}
    {events : List Event} {s : KvaserState α}
    (run : (machine α).Run ⟨slot, .client client, reader⟩ events s) :
    (∀ call, s.sender.call? = some call → stored (sinceWrite events) ≠ [] →
      s.responsePacket ≠ none) ∧
    (∀ call, s.sender.waiting? = some call → s.responsePacket = none →
      stored (sinceWrite events) = []) := by
  have full : ∀ call, s.sender.call? = some call → stored (sinceWrite events) ≠ [] →
      s.responsePacket ≠ none := by
    intro call inCall arrived
    obtain ⟨_, uncleared⟩ := since_canWrite run inCall
    obtain ⟨earlier, split⟩ := sinceWrite_suffix events
    obtain ⟨middle, -, after⟩ := Run.append_iff.mp (split ▸ run)
    obtain ⟨box, related⟩ := exists_box middle
    obtain ⟨last, ops, holds⟩ := (slot_simulates middle).run related after
    rw [← holds.content]
    refine Mailbox.content_ne_none_of_put ops (by rwa [puts_slotOp]) ?_
    rw [List.mem_filterMap]
    rintro ⟨event, member, cleared⟩
    cases event <;> cases cleared
    exact uncleared _ member
  refine ⟨full, fun call waiting empty => ?_⟩
  have inCall : s.sender.call? = some call := by
    cases sender : s.sender <;> simp_all [SenderPc.waiting?, SenderPc.call?]
  by_contra arrived
  exact full call inCall arrived empty

theorem no_lost_wakeup_at_early_answer :
    ∃ s, (machine Unit).Run (start (.writeCmdMsgRsp ping fun _ => .ret ())) (earlyAnswer ping canOK pong) s ∧
      s.sender.call?.isSome ∧ s.responsePacket ≠ none := by
  have run := earlyAnswer_run pong_isResponse ping canOK fun _ => (.ret () : Client Unit)
  have arrived : stored (sinceWrite (earlyAnswer ping canOK pong)) ≠ [] := by
    simp [sinceWrite, earlyAnswer, stored, List.rtakeWhile]
  exact ⟨_, run, rfl, (no_lost_wakeup _ run).1 _ rfl arrived⟩

end OtaCli.Soundness.SlotHistory
