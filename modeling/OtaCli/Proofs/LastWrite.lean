import OtaCli.Model.PacketHistory
import OtaCli.ToMathlib.ListLast

/-! # Which assignments a command packet's image remembers

Of the byte properties the last assignment counts, whatever came before and in between. The `Data`
setter only overwrites as many bytes as it is given, so each byte of the payload is that of the last
array which reached it.
-/

namespace OtaCli.Proofs.LastWrite

open Model Model.PacketFields LabeledMachine

section Picks

@[simp] def cmd? : Assignment → Option UInt8
  | .cmd value => some value
  | _ => none

@[simp] def crc? : Assignment → Option UInt8
  | .crc value => some value
  | _ => none

@[simp] def size? : Assignment → Option UInt8
  | .size value => some value
  | _ => none

@[simp] def deviceId? : Assignment → Option UInt8
  | .deviceId value => some value
  | _ => none

/-- The byte which an assigned array has at a position, if it is long enough. -/
@[simp] def byte? (i : ℕ) (a : Assignment) : Option UInt8 := a.array?.bind (·[i]?)

end Picks

/-- The last of the values which some of the assignments give. -/
def last {β : Type} (pick : Assignment → Option β) (history : List Assignment) : Option β :=
  (history.filterMap pick).getLast?

/-- Every property has the same last value in both histories, or is assigned in neither. -/
structure SameLast (first second : List Assignment) : Prop where
  cmd : last cmd? first = last cmd? second
  crc : last crc? first = last crc? second
  size : last size? first = last size? second
  deviceId : last deviceId? first = last deviceId? second
  data : last Assignment.array? first = last Assignment.array? second

/-- The byte at a position in the last array that is long enough to have one there. -/
def lastByte (i : ℕ) (history : List Assignment) : UInt8 := (last (byte? i) history).getD 0

/-- Assignments to a command that return act on its fields one after the other. -/
private theorem fields_of_run {f : PacketFields} {history : List Assignment} {p : CommandPacket}
    (run : (Packet.returning .command).Run (f.toPacket .command) history p) :
    p = (history.foldl PacketFields.assign f).toPacket .command := by
  refine run.invariant (I := fun before q =>
    q = (before.foldl PacketFields.assign f).toPacket .command) rfl ?_
  rintro before q a next - rfl stepped
  have returned := Packet.returning_step_iff.mp stepped
  cases faulty : CommandPacket.fault a with
  | some e =>
    rw [Packet.assign_of_fault faulty] at returned
    cases returned
  | none =>
    rw [Packet.assign_toPacket faulty (by simp)] at returned
    cases returned
    rw [List.foldl_append, List.foldl_cons, List.foldl_nil]

section Fields

variable (f : PacketFields) (history : List Assignment)

private theorem foldl_cmd : (history.foldl PacketFields.assign f).cmd = (last cmd? history).getD f.cmd :=
  List.foldl_read PacketFields.assign PacketFields.cmd cmd? (fun _ a => by cases a <;> rfl) f history

private theorem foldl_crc : (history.foldl PacketFields.assign f).crc = (last crc? history).getD f.crc :=
  List.foldl_read PacketFields.assign PacketFields.crc crc? (fun _ a => by cases a <;> rfl) f history

private theorem foldl_size : (history.foldl PacketFields.assign f).size = (last size? history).getD f.size :=
  List.foldl_read PacketFields.assign PacketFields.size size? (fun _ a => by cases a <;> rfl) f history

private theorem foldl_deviceId :
    (history.foldl PacketFields.assign f).deviceId = (last deviceId? history).getD f.deviceId :=
  List.foldl_read PacketFields.assign PacketFields.deviceId deviceId? (fun _ a => by cases a <;> rfl)
    f history

private theorem foldl_byte {i : ℕ} (bound : i < 5) :
    (history.foldl PacketFields.assign f).data[i] = (last (byte? i) history).getD f.data[i] := by
  refine List.foldl_read PacketFields.assign (fun g => g.data[i]) (byte? i) (fun g a => ?_) f history
  cases a with
  | data value =>
    cases value with
    | none =>
      simp only [assign, storeData, Option.getD_none, List.getElem?_nil, Vector.getElem_ofFn,
        Fin.getElem_fin, byte?, Assignment.array?, Option.bind_none]
    | some array =>
      simp only [assign, storeData, Option.getD_some, Vector.getElem_ofFn, Fin.getElem_fin, byte?,
        Assignment.array?, Option.bind_some]
  | _ => rfl

end Fields

/-- Two new commands to which assignments are made that return, the last ones alike: their images are
the same exactly when, at each of the five positions, the last arrays that reach it have the same byte
there. -/
theorem images_eq_iff {new p q : CommandPacket} {first second : List Assignment}
    (created : Packet.create = .ok new) (left : (Packet.returning .command).Run new first p)
    (right : (Packet.returning .command).Run new second q) (same : SameLast first second) :
    p.mappedMsg.data = q.mappedMsg.data ↔ ∀ i < 5, lastByte i first = lastByte i second := by
  obtain rfl : blank.toPacket .command = new := Except.ok.inj (Packet.create_eq.symm.trans created)
  obtain rfl := fields_of_run left
  obtain rfl := fields_of_run right
  have bytes {i : ℕ} (bound : i < 5) (history : List Assignment) :
      (history.foldl PacketFields.assign blank).data[i] = lastByte i history := by
    rw [foldl_byte _ _ bound, lastByte]
    have blankByte : blank.data[i] = 0 := Vector.getElem_replicate _
    rw [blankByte]
  simp only [toPacket, Vector.toList_inj, wire_eq_iff, foldl_cmd, foldl_crc, foldl_size,
    foldl_deviceId, same.cmd, same.crc, same.size, same.deviceId, true_and]
  constructor
  · intro payload i bound
    rw [← bytes bound, ← bytes bound, payload]
  · intro reached
    refine Vector.ext fun i bound => ?_
    rw [bytes bound, bytes bound]
    exact reached i bound

/-- Assignments to different properties commute, and so do arrays below a last one, where they agree in what it
leaves of them. -/
theorem images_eq_of_swapped :
    ∃ p q : CommandPacket,
      (Packet.returning .command).Run (blank.toPacket .command)
        [.data (some [1, 2, 3, 4, 5]), .cmd 3, .data (some [9, 8]), .crc 7] p ∧
      (Packet.returning .command).Run (blank.toPacket .command)
        [.crc 7, .data (some [6]), .data (some [0, 0, 3, 4, 5]), .data (some [9, 8]), .cmd 3] q ∧
      p.mappedMsg.data = q.mappedMsg.data := by
  have left := CommandPacket.run_of_fine (show ∀ a ∈ [Assignment.data (some [1, 2, 3, 4, 5]), .cmd 3,
    .data (some [9, 8]), .crc 7], CommandPacket.fault a = none by decide) blank
  have right := CommandPacket.run_of_fine (show ∀ a ∈ [Assignment.crc 7, .data (some [6]),
    .data (some [0, 0, 3, 4, 5]), .data (some [9, 8]), .cmd 3], CommandPacket.fault a = none by decide) blank
  have images := images_eq_iff Packet.create_eq left right ⟨rfl, rfl, rfl, rfl, rfl⟩
  exact ⟨_, _, left, right, images.mpr (by decide)⟩

/-- One byte over five: four of the five are still sent. -/
theorem payload_remains :
    ∃ new p q : CommandPacket, Packet.create = .ok new ∧
      (Packet.returning .command).Run new [.data (some [1, 2, 3, 4, 5]), .data (some [9])] p ∧
      (Packet.returning .command).Run new [.data (some [9])] q ∧
      SameLast [.data (some [1, 2, 3, 4, 5]), .data (some [9])] [.data (some [9])] ∧
      p.mappedMsg.data ≠ q.mappedMsg.data := by
  refine ⟨_, _, _, Packet.create_eq, CommandPacket.run_of_fine (by simp [CommandPacket.fault]) blank,
    CommandPacket.run_of_fine (by simp [CommandPacket.fault]) blank, ⟨rfl, rfl, rfl, rfl, rfl⟩, ?_⟩
  decide +kernel

end OtaCli.Proofs.LastWrite
