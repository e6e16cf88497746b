import OtaCli.Soundness.Exchange
import OtaCli.Soundness.WireTranscript

/-! # What the device has received while a file is flashed

The network simulates stop and wait, so the device has an initial part of the frames written, and the
tape of the calling thread is an initial part of the transcript of `Update`. Together: the device has
an initial part of the flash at every moment, whatever was lost or failed on the way.
-/

namespace OtaCli.Soundness.FlashDelivery

open Model Model.KvaserInterface Model.FileUpdater LabeledMachine
open Proofs.FlashTranscript Proofs.FlashFrames WireTranscript

/-- The data packets among the packets of a flash. -/
def dataOf (packets : List CommandPacket) : List CommandPacket :=
  packets.filter fun p => p.cmd = Commands.FLASH_DATA

section Prefixes

variable (targetDeviceId : UInt8) {content : List UInt8} {packets before : List CommandPacket}
  {p : CommandPacket}

theorem dataOf_dataPackets (k : ℕ) (chunks : List (List UInt8)) :
    dataOf (dataPackets targetDeviceId k chunks) = dataPackets targetDeviceId k chunks := by
  refine List.filter_eq_self.mpr fun p member => ?_
  obtain ⟨i, chunk, -, rfl⟩ := mem_dataPackets _ member
  rfl

private theorem dataOf_flashTranscript (content : List UInt8) :
    dataOf (flashTranscript content targetDeviceId).commands =
      dataPackets targetDeviceId 0 (fullChunks content) := by
  have begins : Commands.FLASH_BEGIN ≠ Commands.FLASH_DATA := by decide
  have ends : Commands.FLASH_END ≠ Commands.FLASH_DATA := by decide
  have middle := dataOf_dataPackets targetDeviceId 0 (fullChunks content)
  simp only [dataOf] at middle ⊢
  simp only [flashTranscript, List.filter_cons, lengthPacket_cmd, begins, decide_false,
    Bool.false_eq_true, ↓reduceIte, List.filter_append, middle]
  split <;> simp [ends]

/-- The image bytes in an initial part of a flash are an initial part of the file. -/
private theorem image_prefix_content (sent : packets <+: (flashTranscript content targetDeviceId).commands) :
    image (dataOf packets) <+: content := by
  obtain ⟨rest, split⟩ := sent.filter fun p => decide (p.cmd = Commands.FLASH_DATA)
  have whole : image (dataPackets targetDeviceId 0 (fullChunks content)) <+: content := by
    rw [image_dataPackets _ _ fun chunk member => (length_of_mem_fullChunks content chunk member).le,
      fullChunks, List.flatten_toChunks (by decide)]
    exact List.take_prefix _ _
  rw [← dataOf_flashTranscript, dataOf, ← split, image, List.flatMap_append] at whole
  exact (List.prefix_append _ _).trans whole

private theorem last_of_prefix_concat {front tail : List CommandPacket}
    (cut : before ++ [p] <+: front ++ tail) (outside : p ∉ front) (one : tail.length ≤ 1) :
    before = front ∧ tail = [p] := by
  obtain ⟨rest, split⟩ := cut
  rw [List.append_assoc, List.append_eq_append_iff] at split
  obtain ⟨middle, rfl, after⟩ | ⟨middle, rfl, after⟩ := split
  · cases middle with
    | nil =>
      obtain rfl : p :: rest = tail := after
      exact ⟨(List.append_nil before).symm, by simpa using one⟩
    | cons first middle =>
      obtain ⟨rfl, -⟩ := List.cons.inj after
      simp at outside
  · cases middle with
    | nil =>
      obtain rfl : tail = p :: rest := after
      exact ⟨List.append_nil front, by simpa using one⟩
    | cons first middle => simp [after] at one

/-- The end packet comes after all the data. -/
private theorem complete_of_end (sent : before ++ [p] <+: (flashTranscript content targetDeviceId).commands)
    (ends : p.cmd = Commands.FLASH_END) :
    (dataOf before).length = (content.length + 3) / 4 ∧ image (dataOf before) = content := by
  obtain ⟨rest, split⟩ := sent
  have notEnd : p ∉ lengthPacket Commands.FLASH_BEGIN targetDeviceId content.length ::
      dataPackets targetDeviceId 0 (fullChunks content) := by
    rw [List.mem_cons, not_or]
    constructor
    · rintro rfl
      rw [lengthPacket_cmd] at ends
      cases ends
    · intro member
      obtain ⟨k, chunk, -, rfl⟩ := mem_dataPackets _ member
      rw [dataPacket_cmd] at ends
      cases ends
  obtain ⟨same, last⟩ := last_of_prefix_concat ⟨rest, split⟩ notEnd (by split <;> simp)
  have multiple : 4 ∣ content.length := by
    by_contra partly
    simp [partly] at last
  have data : dataOf before = dataPackets targetDeviceId 0 (fullChunks content) := by
    rw [same, dataOf, List.filter_cons, ← dataOf, dataOf_dataPackets]
    rfl
  have whole := fullChunks_of_dvd multiple
  have short : ∀ chunk ∈ fullChunks content, chunk.length ≤ 4 := fun chunk member =>
    (length_of_mem_fullChunks content chunk member).le
  constructor
  · rw [data, length_dataPackets, whole, List.length_toChunks (by decide)]
    rfl
  · rw [data, image_dataPackets _ _ short, whole, List.flatten_toChunks (by decide)]

end Prefixes

section Runs

variable {client : Client Bool} {content : List UInt8} {targetDeviceId : UInt8} {actions : List Action}
  {s : KvaserState Bool} {bus : Bus}

/-- The network is stop and wait, so the frames delivered are the first frames written. -/
theorem delivered_prefix_written (run : (network Bool).Run (start client, Bus.quiet) actions (s, bus)) :
    delivered actions <+: (written (codeEvents actions)).map (·.mappedMsg) := by
  obtain ⟨e, -, ops⟩ := stopAndWait_run run
  have safe := (StopAndWait.received_prefix_sent ops).1
  rwa [received_exchanged, sent_exchanged] at safe

/-- The packets written are the first packets of a flash. -/
private theorem written_prefix_flash
    (run : (network Bool).Run (start (update (.ok content) targetDeviceId), Bus.quiet) actions (s, bus)) :
    written (codeEvents actions) <+: (flashTranscript content targetDeviceId).commands := by
  obtain ⟨rest, -, same⟩ :=
    transcript_of_run (update_performs targetDeviceId (.ok content)) (code_run run)
  have commands := congrArg Transcript.commands same
  rcases Nat.lt_or_ge maxLength content.length with long | readable
  · rw [planned_of_too_long targetDeviceId long] at commands
    rw [(List.append_eq_nil_iff.mp commands.symm).1]
    exact List.nil_prefix
  · rw [planned_of_readable targetDeviceId readable] at commands
    exact ⟨_, commands.symm⟩

end Runs

/-- Stop-and-wait safety of a flash, in every state which the interface, the bus and the device reach
from an empty slot, whatever fails or is lost. The device has got, in order, without gap or duplicate,
the first frames written; read by its parser they hold the first bytes of the file, and an end packet
among them comes after all the data packets and the whole file. All commands written but the last have
been answered, each wait having ended on the device's answer to its own command. -/
theorem stop_and_wait (content : List UInt8) (targetDeviceId : UInt8) {actions : List Action}
    {s : KvaserState Bool} {bus : Bus}
    (run : (network Bool).Run (start (update (.ok content) targetDeviceId), Bus.quiet) actions (s, bus)) :
    delivered actions <+: (written (codeEvents actions)).map (·.mappedMsg) ∧
    (∃ packets, (delivered actions).map Packet.ofCanMsg = packets.map Except.ok ∧
      image (dataOf packets) <+: content ∧
      ∀ before p, before ++ [p] <+: packets → p.cmd = Commands.FLASH_END →
        (dataOf before).length = (content.length + 3) / 4 ∧ image (dataOf before) = content) ∧
    (∀ n, n + 1 < (written (codeEvents actions)).length →
      ∃ r, .answer n r ∈ actions ∧ (observed (codeEvents actions))[n]? = some r.parsed) := by
  -- the packets delivered are those written, up to some number
  obtain ⟨packets, within, frames⟩ : ∃ packets,
      packets <+: (flashTranscript content targetDeviceId).commands ∧
        delivered actions = packets.map (·.mappedMsg) := by
    have cut := List.prefix_iff_eq_take.mp (delivered_prefix_written run)
    rw [← List.map_take] at cut
    exact ⟨_, (List.take_prefix _ _).trans (written_prefix_flash run), cut⟩
  refine ⟨delivered_prefix_written run, ⟨packets, ?_, image_prefix_content targetDeviceId within,
    fun before p part ends => complete_of_end targetDeviceId (part.trans within) ends⟩, ?_⟩
  · rw [frames, List.map_map]
    exact List.map_congr_left fun p member =>
      (isImage_of_mem_flashTranscript targetDeviceId content p (within.subset member)).parses
  · intro n earlier
    have waits := (SlotHistory.call_counts (code_run run)).2
    have one : s.sender.waiting?.toList.length ≤ 1 := Option.length_toList_le
    have answered : n < (observed (codeEvents actions)).length := by omega
    obtain ⟨r, given, same⟩ := observed_answers run n _ (List.getElem?_eq_getElem answered)
    exact ⟨r, given, by rw [List.getElem?_eq_getElem answered, same]⟩

theorem stop_and_wait_of_eight_bytes :
    ∃ actions bus, (network Bool).Run (start (update (.ok [1, 2, 3, 4, 5, 6, 7, 8]) 9), Bus.quiet)
        actions (start (.ret true), bus) ∧
      delivered actions <+: (written (codeEvents actions)).map (·.mappedMsg) := by
  have performs := update_performs 9 (.ok [1, 2, 3, 4, 5, 6, 7, 8])
  rw [planned_of_readable 9 (by decide)] at performs
  obtain ⟨actions, bus, run⟩ :=
    AnsweredCall.exists_network_run AnsweredCall.pong_isResponse performs 0
  exact ⟨actions, bus, run, (stop_and_wait _ 9 run).1⟩

end OtaCli.Soundness.FlashDelivery
