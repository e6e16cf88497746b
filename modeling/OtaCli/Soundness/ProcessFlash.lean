import OtaCli.Proofs.FlashReading
import OtaCli.Soundness.FlashDelivery
import OtaCli.Soundness.ProcessProgress

/-! # What the program says of a flash, and what the device has got

The refinement carries what is proved of the updater and of the bus over to the whole process. The message that
the upload is complete is the last word of the update: when it is on the console, the whole plan was written,
and on a bus with one device that answers, the device has got every frame of it.
-/

namespace OtaCli.Soundness.ProcessFlash

open Model Model.Process Model.FileUpdater Interaction LabeledMachine
open Proofs.Release Proofs.MainCode Proofs.FlashReading ProcessRefinement

variable {options : CommandLineOptions} {files : String → File} {tape : List Process.Event} {s : State}

section Plan

/-- What was written and printed is the first part of the plan, and all of it once the upload is complete. -/
theorem plan_of_run (run : Process.machine.Run (new (Program.main (some options) files)) tape s) :
    written (interfaceEvents tape) <+: (plan options files).commands ∧
    printed (interfaceEvents tape) <+: (plan options files).printed ∧
    (uploadComplete ∈ tape → ∃ value,
      plan options files = ⟨written (interfaceEvents tape), printed (interfaceEvents tape), .ok value⟩) := by
  obtain ⟨k, inner, -, complete⟩ := agrees_of_run run
  have performs := updating_performs options files
  obtain ⟨rest, -, same⟩ := WireTranscript.transcript_of_run performs inner
  refine ⟨⟨_, (congrArg Transcript.commands same).symm⟩, ⟨_, (congrArg Transcript.printed same).symm⟩, ?_⟩
  intro member
  obtain ⟨value, returned⟩ := complete member
  exact ⟨value, WireTranscript.transcript_of_returned performs inner returned⟩

/-- A plan that returns is the flash of a file of full chunks, or nothing in online mode. -/
theorem plan_of_returned {commands : List CommandPacket} {numbers : List Int32} {value : Bool}
    (same : plan options files = ⟨commands, numbers, .ok value⟩) :
    value = true ∧ (options.onlineMode = true ∧ commands = [] ∧ numbers = [] ∨
      options.onlineMode = false ∧ ∃ content, files options.binary = .ok content ∧ 4 ∣ content.length ∧
        content.length ≤ maxLength ∧ commands = (flashTranscript content options.targetDevice).commands ∧
        numbers = (flashTranscript content options.targetDevice).printed) := by
  cases online : options.onlineMode with
  | true =>
    simp only [plan, online, if_true, Transcript.mk.injEq, Except.ok.injEq] at same
    obtain ⟨rfl, rfl, rfl⟩ := same
    exact ⟨rfl, .inl ⟨rfl, rfl, rfl⟩⟩
  | false =>
    simp only [plan, online, Bool.false_eq_true, if_false, Proofs.FlashTranscript.planned] at same
    cases read : fileToByteArray (files options.binary) with
    | error e => simp [read] at same
    | ok content =>
      obtain ⟨file, readable⟩ := fileToByteArray_eq_ok_iff.mp read
      simp only [read] at same
      have result := congrArg Transcript.result same
      by_cases multiple : 4 ∣ content.length
      · simp only [flashTranscript, multiple, if_true, Except.ok.injEq] at result
        exact ⟨result.symm, .inr ⟨rfl, content, file, multiple, readable,
          (congrArg Transcript.commands same).symm, (congrArg Transcript.printed same).symm⟩⟩
      · simp [flashTranscript, multiple] at result

/-- A scan leaves the updater where it is. -/
private theorem nothing_of_scan (run : Process.machine.Run (new (Program.main (some options) files)) tape s)
    (scan : options.scan = true) : written (interfaceEvents tape) = [] ∧ printed (interfaceEvents tape) = [] := by
  obtain ⟨⟨slot, sender, reader⟩, inner, ⟨stage, -, -⟩, -⟩ := agrees_of_run run
  have performs := updating_performs options files
  obtain ⟨rest, later, same⟩ := WireTranscript.transcript_of_run performs inner
  have still : sender = .client (updating options files) := by
    cases stage <;> first | rfl | simp_all
  rw [still] at later
  obtain rfl : plan options files = rest := (performs []).symm.trans (later [])
  have commands := congrArg Transcript.commands same
  have numbers := congrArg Transcript.printed same
  exact ⟨List.append_left_eq_self.mp commands.symm, List.append_left_eq_self.mp numbers.symm⟩

end Plan

section Orderly

variable {o : KvaserInterface.Fields} {r : ReadResult}

/-- A run of the process on a bus with one device: both agree on what the interface does. -/
structure OnBus (source : State) (tape : List Process.Event) (s : State) (before : Bus) (actions : List Action)
    (bus : Bus) : Prop where
  process : Process.machine.Run source tape s
  bus : Bus.machine.Run before actions bus
  same : codeEvents actions = interfaceEvents tape

theorem OnBus.append {source s t : State} {first second : List Process.Event} {before bus after : Bus}
    {actions more : List Action} (left : OnBus source first s before actions bus)
    (right : OnBus s second t bus more after) : OnBus source (first ++ second) t before (actions ++ more) after where
  process := left.process.append right.process
  bus := left.bus.append right.bus
  same := by
    have codes : codeEvents (actions ++ more) = codeEvents actions ++ codeEvents more := List.filterMap_append
    have events : interfaceEvents (first ++ second) = interfaceEvents first ++ interfaceEvents second :=
      List.filterMap_append
    rw [codes, events, left.same, right.same]

/-- An updater runs to the end of its transcript in the process, on a bus where nothing is lost. -/
private theorem exists_orderly (response : r.IsResponse) (uncancelled : o.cancelled = false) {client : Client Bool}
    {t : Transcript Bool} (performs : client.Performs t) (k : Bool → Code Unit) (n : ℕ) :
    ∃ events actions m, OnBus ⟨.code (client.toCode >>= k), o, none, [.check]⟩ events
      ⟨.code (ended t.result >>= k), o, none, [.check]⟩ ⟨n, [], [], []⟩ actions ⟨m, [], [], []⟩ := by
  induction client generalizing n t with
  | ret value =>
    obtain rfl := Client.performs_ret_iff.mp performs
    exact ⟨[], [], n, .refl _, .refl _, rfl⟩
  | raise e =>
    obtain rfl := Client.performs_raise_iff.mp performs
    exact ⟨[], [], n, .refl _, .refl _, rfl⟩
  | writeLine value next ih =>
    obtain ⟨rest, after, rfl⟩ := Client.performs_writeLine_iff.mp performs
    obtain ⟨events, actions, m, later⟩ := ih after n
    have moves : (Interaction.machine _ _ _).step ((Client.writeLine value next).toCode >>= k)
        ⟨.writeLine (.number value), ()⟩ = some (next.toCode >>= k) := step_perform_iff.mpr ⟨(), rfl, rfl⟩
    have printing : OnBus ⟨.code ((Client.writeLine value next).toCode >>= k), o, none, [.check]⟩
        [.main ⟨.writeLine (.number value), ()⟩] ⟨.code (next.toCode >>= k), o, none, [.check]⟩
        ⟨n, [], [], []⟩ [.code (.writeLine value)] ⟨n, [], [], []⟩ :=
      ⟨step_cons rfl rfl (.main rfl moves rfl) (.refl _), Run.singleton_iff.mpr rfl, rfl⟩
    exact ⟨_, _, m, printing.append later⟩
  | writeCmdMsgRsp cmd next ih =>
    obtain ⟨rest, after, rfl⟩ := Client.performs_call_iff.mp performs
    obtain ⟨events, actions, m, later⟩ := ih (some r.parsed) (after (some r.parsed)) (n + 1)
    have network := AnsweredCall.networkCall_run response n cmd next
    have calling : OnBus ⟨.code ((Client.writeCmdMsgRsp cmd next).toCode >>= k), o, none, [.check]⟩
        (orderlyCall o.handle cmd r) ⟨.code ((next (some r.parsed)).toCode >>= k), o, none, [.check]⟩
        ⟨n, [], [], []⟩ (AnsweredCall.networkCall n cmd r) ⟨n + 1, [], [], []⟩ :=
      ⟨orderlyCall_run response uncancelled cmd fun response => (next response).toCode >>= k,
        (within_run_iff.mp network).2, rfl⟩
    exact ⟨_, _, m, calling.append later⟩

end Orderly

section Delivery

variable {actions : List Action} {bus : Bus} {k : KvaserState Bool}

/-- Between its calls the interface has nothing under way, so all that was written has been delivered. -/
private theorem delivered_of_idle {client : Client Bool}
    (run : (network Bool).Run (KvaserInterface.start client, Bus.quiet) actions (k, bus))
    (idle : k.sender.call? = none) :
    delivered actions = (written (codeEvents actions)).map (·.mappedMsg) := by
  obtain ⟨e, stands, ops⟩ := stopAndWait_run run
  obtain rfl := stands.eq_idle idle
  have counts := (StopAndWait.sent_eq ops).1
  rw [received_exchanged, sent_exchanged] at counts
  simpa [Exchange.phase] using counts.symm

/-- The process on a bus is the network of the interface, the bus and the device. -/
private theorem network_of_onBus
    (onBus : OnBus (new (Program.main (some options) files)) tape s Bus.quiet actions bus) :
    ∃ k, (network Bool).Run (KvaserInterface.start (updating options files), Bus.quiet) actions (k, bus) ∧
      (uploadComplete ∈ tape → ∃ value, k.sender = .client (.ret value)) := by
  obtain ⟨k, inner, -, complete⟩ := agrees_of_run onBus.process
  rw [← onBus.same] at inner
  exact ⟨k, within_run_iff.mpr ⟨inner, onBus.bus⟩, complete⟩

/-- For every file of full chunks there is a run which comes to the message. -/
theorem exists_complete (content : List UInt8) (multiple : 4 ∣ content.length)
    (readable : content.length ≤ maxLength) :
    ∃ tape s actions bus,
      OnBus (new (Program.main (some { interface := 0 }) fun _ => .ok content)) tape s Bus.quiet actions bus ∧
      uploadComplete ∈ tape := by
  obtain ⟨o, uncancelled, opened⟩ : ∃ o : KvaserInterface.Fields, o.cancelled = false ∧
      Process.machine.Run (new (Program.main (some { interface := 0 }) fun _ => .ok content))
        (firstOpened.map .main) ⟨.code ((updating { interface := 0 } fun _ => .ok content).toCode >>=
          fun _ => finish (chosen { interface := 0 } fun _ => .ok content)), o, none, [.check]⟩ :=
    ⟨_, rfl, opened_run { interface := 0 } (fun _ => .ok content) rfl⟩
  have planned : plan { interface := 0 } (fun _ => .ok content) = flashTranscript content 0 := by
    simp only [plan, Bool.false_eq_true, if_false, Proofs.FlashTranscript.planned_of_readable _ readable]
  have returned : (flashTranscript content 0).result = .ok true := by simp [flashTranscript, multiple]
  obtain ⟨events, actions, m, flashed⟩ := exists_orderly AnsweredCall.pong_isResponse uncancelled
    (planned ▸ updating_performs { interface := 0 } fun _ => .ok content)
    (fun _ => finish (chosen { interface := 0 } fun _ => .ok content)) 0
  rw [returned] at flashed
  have begun : OnBus (new (Program.main (some { interface := 0 }) fun _ => .ok content))
      (firstOpened.map .main) _ Bus.quiet [] Bus.quiet := ⟨opened, .refl _, rfl⟩
  have whole := begun.append flashed
  obtain ⟨rest, shape, -⟩ := finish_after { interface := 0 } fun _ => .ok content
  have moves : (Interaction.machine _ _ _).step
      (ended (.ok true) >>= fun _ => finish (chosen { interface := 0 } fun _ => .ok content))
      ⟨.writeLine (.text "upload complete"), ()⟩ = some rest := by
    rw [show ended (.ok true) = (.ret true : Code Bool) from rfl, ret_bind, shape]
    exact step_perform_iff.mpr ⟨(), rfl, rfl⟩
  have told : OnBus ⟨.code (ended (.ok true) >>= fun _ =>
        finish (chosen { interface := 0 } fun _ => .ok content)), o, none, [.check]⟩ [uploadComplete]
      ⟨.code rest, o, none, [.check]⟩ ⟨m, [], [], []⟩ [] ⟨m, [], [], []⟩ :=
    ⟨step_cons rfl rfl (.main rfl moves rfl) (.refl _), .refl _, rfl⟩
  exact ⟨_, _, _, _, whole.append told, by simp⟩

/-- What it means that the upload is complete. In every interleaving, and whatever the driver answers, what has
been written and printed is the first part of the plan, a scan and an online update write nothing at all, and with
the message on the console the update was online, or a file was read whose chunks are all full, and the packets of
its flash have been written, each once and in order, with one number printed for each chunk. Written is what was
handed to `canWrite`, whether it has failed or not. -/
theorem upload_complete_truthful (options : CommandLineOptions) (files : String → File)
    (run : Process.machine.Run (new (Program.main (some options) files)) tape s) :
    written (interfaceEvents tape) <+: (plan options files).commands ∧
    printed (interfaceEvents tape) <+: (plan options files).printed ∧
    (options.scan = true ∨ options.onlineMode = true →
      written (interfaceEvents tape) = [] ∧ printed (interfaceEvents tape) = []) ∧
    (uploadComplete ∈ tape → options.onlineMode = true ∨
      ∃ content, files options.binary = .ok content ∧ 4 ∣ content.length ∧ content.length ≤ maxLength ∧
        written (interfaceEvents tape) = (flashTranscript content options.targetDevice).commands ∧
        printed (interfaceEvents tape) = (flashTranscript content options.targetDevice).printed) := by
  obtain ⟨commands, numbers, complete⟩ := plan_of_run run
  refine ⟨commands, numbers, ?_, fun member => ?_⟩
  · rintro (scan | online)
    · exact nothing_of_scan run scan
    · simp only [plan, online, if_true, List.prefix_nil] at commands numbers
      exact ⟨commands, numbers⟩
  · obtain ⟨value, same⟩ := complete member
    obtain ⟨-, ⟨online, -⟩ | ⟨-, content, file, multiple, readable, packets, progress⟩⟩ :=
      plan_of_returned same
    · exact .inl online
    · exact .inr ⟨content, file, multiple, readable, packets, progress⟩

theorem upload_complete_truthful_of_eight_bytes :
    ∃ (tape : List Process.Event) (s : State),
      Process.machine.Run (new (Program.main (some { interface := 0 }) fun _ => .ok [1, 2, 3, 4, 5, 6, 7, 8]))
        tape s ∧
      uploadComplete ∈ tape ∧
      written (interfaceEvents tape) = (flashTranscript [1, 2, 3, 4, 5, 6, 7, 8] 0).commands := by
  obtain ⟨tape, s, actions, bus, onBus, told⟩ :=
    exists_complete [1, 2, 3, 4, 5, 6, 7, 8] (by decide) (by decide)
  obtain online | ⟨content, read, -, -, packets, -⟩ :=
    (upload_complete_truthful { interface := 0 } _ onBus.process).2.2.2 told
  · cases online
  · cases read
    exact ⟨tape, s, onBus.process, told, packets⟩

/-- From the file to the device, in an update that is not online and whose file can be read. On a bus with one
device, whatever is lost or fails on the way and however the threads are scheduled, the frames which the device has
got are the first frames of the flash of the file, and when the program says that the upload is complete the device
has got them all, and reads the file in them. -/
theorem complete_means_delivered (options : CommandLineOptions) (files : String → File) {content : List UInt8}
    (offline : options.onlineMode = false) (read : files options.binary = .ok content)
    (onBus : OnBus (new (Program.main (some options) files)) tape s Bus.quiet actions bus) :
    delivered actions <+:
      (flashTranscript content options.targetDevice).commands.map (·.mappedMsg) ∧
    (uploadComplete ∈ tape →
      delivered actions = (flashTranscript content options.targetDevice).commands.map (·.mappedMsg) ∧
      ∃ packets, (delivered actions).map Packet.ofCanMsg = packets.map Except.ok ∧
        readFlash packets = some content) := by
  obtain ⟨k, network, complete⟩ := network_of_onBus onBus
  obtain ⟨commands, -, whole⟩ := plan_of_run onBus.process
  rw [← onBus.same] at commands whole
  constructor
  · refine (FlashDelivery.delivered_prefix_written network).trans ((commands.trans ?_).map _)
    simp only [plan, offline, Bool.false_eq_true, if_false, read]
    rcases Nat.lt_or_ge maxLength content.length with long | readable
    · rw [Proofs.FlashTranscript.planned_of_too_long _ long]
      exact List.nil_prefix
    · simp only [Proofs.FlashTranscript.planned_of_readable _ readable, List.prefix_rfl]
  · intro member
    obtain ⟨value, returned⟩ := complete member
    have all := delivered_of_idle network (by rw [returned]; rfl)
    obtain ⟨value, same⟩ := whole member
    obtain ⟨-, ⟨online, -⟩ | ⟨-, content', file, multiple, readable, packets, -⟩⟩ := plan_of_returned same
    · simp [offline] at online
    · obtain rfl := Except.ok.inj (read.symm.trans file)
      rw [packets] at all
      refine ⟨all, _, ?_, readFlash_commands options.targetDevice readable multiple⟩
      rw [all, List.map_map]
      exact List.map_congr_left fun p member =>
        (Proofs.FlashFrames.isImage_of_mem_flashTranscript options.targetDevice content p member).parses

theorem complete_means_delivered_of_eight_bytes :
    ∃ (tape : List Process.Event) (s : State) (actions : List Action) (bus : Bus),
      OnBus (new (Program.main (some { interface := 0 }) fun _ => .ok [1, 2, 3, 4, 5, 6, 7, 8])) tape s
        Bus.quiet actions bus ∧
      ∃ packets, (delivered actions).map Packet.ofCanMsg = packets.map Except.ok ∧
        readFlash packets = some [1, 2, 3, 4, 5, 6, 7, 8] := by
  obtain ⟨tape, s, actions, bus, onBus, told⟩ :=
    exists_complete [1, 2, 3, 4, 5, 6, 7, 8] (by decide) (by decide)
  exact ⟨tape, s, actions, bus, onBus,
    ((complete_means_delivered { interface := 0 } _ rfl rfl onBus).2 told).2⟩

end Delivery

end OtaCli.Soundness.ProcessFlash
