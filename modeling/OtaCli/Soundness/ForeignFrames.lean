import OtaCli.Soundness.SlotHistory

/-! # Frames which only share the response's number

The driver reports the number of a frame in `id`, and in `flags` whether it is an extended, a remote
or an error frame. The reader only looks at the number, so any of these takes the place of a response.
What is stored depends on exactly the data bytes of the frames with that number.
-/

namespace OtaCli.Soundness.ForeignFrames

open Model Model.KvaserInterface LabeledMachine SlotHistory AnsweredCall

variable {α β : Type}

def canMSG_RTR : Int32 := 0x0001
def canMSG_EXT : Int32 := 0x0004
def canMSG_ERROR_FRAME : Int32 := 0x0020

/-- A data frame with an 11-bit identifier. -/
def IsStandard (r : ReadResult) : Prop :=
  r.flags &&& (canMSG_RTR ||| canMSG_EXT ||| canMSG_ERROR_FRAME) = 0

instance (r : ReadResult) : Decidable (IsStandard r) := inferInstanceAs (Decidable (_ = _))

/-- What is on the bus of a frame that was read; the time of its reception is not. -/
def frame (r : ReadResult) : Int32 × Int32 × Int32 × Vector UInt8 8 := (r.id, r.dlc, r.flags, r.data)

/-- The outcomes of `canRead`, in order. -/
def reads (events : List Event) : List ReadResult :=
  events.filterMap fun
    | .canRead result => some result
    | _ => none

/-- The standard data frames with the number of a response. -/
def standardResponses (events : List Event) : List (Int32 × Int32 × Int32 × Vector UInt8 8) :=
  ((reads events).filter fun r => r.IsResponse ∧ IsStandard r).map frame

/-- The data bytes of the frames with the number of a response, whatever their kind. -/
def payloads (events : List Event) : List (Vector UInt8 8) :=
  ((reads events).filter fun r => r.IsResponse).map ReadResult.data

/-- No other frame with that number is read. -/
def NoForeign (events : List Event) : Prop := ∀ r ∈ reads events, r.IsResponse → IsStandard r

instance (events : List Event) : Decidable (NoForeign events) :=
  inferInstanceAs (Decidable (∀ r ∈ reads events, r.IsResponse → IsStandard r))

/-- The packets which the reader has stored or is about to store. -/
def stores (events : List Event) (s : KvaserState α) : List ResponsePacket :=
  stored events ++ s.reader.held.toList

theorem received_eq (events : List Event) :
    received events = (reads events).filter fun r => r.IsResponse := by
  rw [received, reads, List.filter_filterMap]
  congr
  funext event
  cases event with
  | canRead result => by_cases response : result.IsResponse <;> simp [response, Option.filter]
  | _ => rfl

/-- The packet determines the bytes it was made of. -/
private theorem parsed_injective : Function.Injective fun bytes : Vector UInt8 8 =>
    (PacketFields.decode bytes).toPacket .response := by
  intro first second same
  have images := congrArg (fun p : ResponsePacket => p.mappedMsg.data) same
  simp only [PacketFields.toPacket, PacketFields.wire_decode] at images
  exact Vector.toList_inj.mp images

/-- The reader stores one packet for each frame with the number, made of its bytes. -/
private theorem stores_eq {client : Client α} {events : List Event} {s : KvaserState α}
    (run : (machine α).Run (start client) events s) :
    stores events s =
      (payloads events).map fun bytes => (PacketFields.decode bytes).toPacket .response := by
  rw [stores, ← stored_of_received run, received_eq, payloads, List.map_map]
  rfl

private theorem payloads_of_noForeign {events : List Event} (standard : NoForeign events) :
    payloads events = (standardResponses events).map fun f => f.2.2.2 := by
  have same : (reads events).filter (fun r => r.IsResponse) =
      (reads events).filter fun r => r.IsResponse ∧ IsStandard r := by
    refine List.filter_congr fun r member => ?_
    have all := standard r member
    simpa using all
  rw [payloads, same, standardResponses, List.map_map]
  rfl

/-- What ends a wait was received. -/
private theorem exists_read_of_observed {client : Client α} {events : List Event} {s : KvaserState α}
    (run : (machine α).Run (start client) events s) {packet : ResponsePacket}
    (seen : packet ∈ observed events) : ∃ r ∈ reads events, r.IsResponse ∧ r.parsed = packet := by
  obtain ⟨event, member, ends⟩ := List.mem_filterMap.mp seen
  obtain rfl : event = .loopTest (some packet) := by
    cases event <;> cases ends
    rfl
  obtain ⟨before, rest, rfl⟩ := List.append_of_mem member
  have exit : before ++ [.loopTest (some packet)] <+: before ++ .loopTest (some packet) :: rest :=
    ⟨rest, by simp⟩
  obtain ⟨-, r, isReceived, parsed⟩ := exit_frame run exit
  have isRead : r ∈ reads before ∧ r.IsResponse := by
    simpa [received_eq] using List.mem_of_getElem? isReceived
  refine ⟨r, ?_, isRead.2, Except.ok.inj (r.ofCanMsg_toCanMsg.symm.trans parsed)⟩
  exact (List.sublist_append_left before _).filterMap _ |>.subset isRead.1

/-- Two histories with the same standard responses store the same packets exactly if all frames with
that number, of whatever kind, carry the same bytes; they do where no other frame has the number, and
there only standard responses end a wait. -/
theorem stores_eq_iff {client : Client α} {other : Client β} {first second : List Event}
    {s : KvaserState α} {t : KvaserState β} (run : (machine α).Run (start client) first s)
    (another : (machine β).Run (start other) second t)
    (same : standardResponses first = standardResponses second) :
    (stores first s = stores second t ↔ payloads first = payloads second) ∧
    (NoForeign first → NoForeign second → stores first s = stores second t) ∧
    (NoForeign first → ∀ packet ∈ observed first,
      ∃ r ∈ reads first, r.IsResponse ∧ IsStandard r ∧ r.parsed = packet) := by
  have determined : stores first s = stores second t ↔ payloads first = payloads second := by
    rw [stores_eq run, stores_eq another]
    exact (List.map_injective_iff.mpr parsed_injective).eq_iff
  refine ⟨determined, fun standard standard' => determined.mpr ?_, fun standard packet seen => ?_⟩
  · rw [payloads_of_noForeign standard, payloads_of_noForeign standard', same]
  · obtain ⟨r, isRead, response, parsed⟩ := exists_read_of_observed run seen
    exact ⟨r, isRead, response, standard r isRead response, parsed⟩

/-- The reader checks and reads, and has nothing to store. -/
def passed (r : ReadResult) : List Event := [.isCancellationRequested false, .canRead r]

private theorem passed_run {slot : Option ResponsePacket} {sender : SenderPc α} {r : ReadResult}
    (other : ¬ r.IsResponse) :
    (machine α).Run ⟨slot, sender, .check⟩ (passed r) ⟨slot, sender, .check⟩ := by
  have reads : Step ⟨slot, sender, .read⟩ (.canRead r) ⟨slot, sender, .check⟩ := by
    have back : ReviverLoop.afterRead r = .check := by rw [ReviverLoop.afterRead_eq, if_neg other]
    exact back ▸ Step.canRead r
  exact (Step.isCancellationRequested false).cons (reads.cons (.refl _))

/-- One call after a read that fails, and one before a frame with another number. -/
theorem stores_eq_of_two_calls :
    stores (passed { pong with status := -2 } ++ answeredCall ping pong) (start (.ret () : Client Unit)) =
      stores (answeredCall ping pong ++ passed { pong with id := 0x123 }) (start (.ret true : Client Bool)) := by
  have failed : ¬ ({ pong with status := -2 } : ReadResult).IsResponse := by decide
  have other : ¬ ({ pong with id := 0x123 } : ReadResult).IsResponse := by decide
  have run := (passed_run failed).append
    (answeredCall_run pong_isResponse ping fun _ => (.ret () : Client Unit))
  have another := (answeredCall_run pong_isResponse ping fun _ => (.ret true : Client Bool)).append
    (passed_run other)
  exact (stores_eq_iff run another (by decide)).2.1 (by decide) (by decide)

/-- The answer `pong` with a 29-bit identifier of the same number. -/
def extendedPong : ReadResult := { pong with flags := canMSG_EXT }

/-- Beside a silent bus, an extended frame which is stored and ends a wait. -/
theorem extended_frame_ends_wait :
    (machine Unit).Run (start (.writeCmdMsgRsp ping fun _ => .ret ())) (answeredCall ping extendedPong)
        (start (.ret ())) ∧
      (machine Unit).Run (start (.writeCmdMsgRsp ping fun _ => .ret ())) []
        (start (.writeCmdMsgRsp ping fun _ => .ret ())) ∧
      standardResponses (answeredCall ping extendedPong) = standardResponses [] ∧
      observed (answeredCall ping extendedPong) = [extendedPong.parsed] ∧
      stores (answeredCall ping extendedPong) (start (.ret () : Client Unit)) ≠
        stores [] (start (.writeCmdMsgRsp ping fun _ => .ret () : Client Unit)) := by
  refine ⟨answeredCall_run ⟨rfl, rfl⟩ ping _, .refl _, by decide, rfl, ?_⟩
  simp [stores, stored, answeredCall, answeredWait, start]

end OtaCli.Soundness.ForeignFrames
