import OtaCli.Model.Network

/-! # The orderly schedule of a call

The driver succeeds, the wait loop tests the empty slot once, one response is received and stored,
and the loop body reads it. Under this schedule every client that does the same whatever it is
answered runs to its end, so what is proved of runs to completion is not about nothing.
-/

namespace OtaCli.Soundness.AnsweredCall

open Model Model.KvaserInterface LabeledMachine

variable {α : Type}

/-- A call up to the test that ends its wait, with one response, stored between the first loop test
and the read in the loop body. -/
def answeredWait (cmd : CommandPacket) (r : ReadResult) : List Event :=
  [.canWrite cmd canOK, .canWriteSync canOK, .loopTest none, .isCancellationRequested false,
    .canRead r, .store r.parsed, .loopBody (some r.parsed)]

/-- The whole call. -/
def answeredCall (cmd : CommandPacket) (r : ReadResult) : List Event :=
  answeredWait cmd r ++ [.loopTest (some r.parsed), .clear (some r.parsed)]

variable {r : ReadResult}

theorem afterRead_of_isResponse (response : r.IsResponse) :
    ReviverLoop.afterRead r = .store r.parsed := by
  rw [ReviverLoop.afterRead_eq, if_pos response]

theorem answeredWait_run (response : r.IsResponse) (cmd : CommandPacket)
    (next : Option ResponsePacket → Client α) :
    (machine α).Run (start (.writeCmdMsgRsp cmd next)) (answeredWait cmd r)
      ⟨some r.parsed, .loopTest ⟨cmd, next⟩ (some r.parsed), .check⟩ := by
  have reads : Step ⟨none, .loopBody ⟨cmd, next⟩, .read⟩ (.canRead r)
      ⟨none, .loopBody ⟨cmd, next⟩, .store r.parsed⟩ :=
    afterRead_of_isResponse response ▸ Step.canRead r
  exact (Step.canWrite canOK).cons <| (Step.canWriteSync canOK).cons <| Step.loopAgain.cons <|
    (Step.isCancellationRequested false).cons <| reads.cons <| Step.store.cons <|
    Step.loopBody.cons <| .refl _

theorem answeredCall_run (response : r.IsResponse) (cmd : CommandPacket)
    (next : Option ResponsePacket → Client α) :
    (machine α).Run (start (.writeCmdMsgRsp cmd next)) (answeredCall cmd r)
      (start (next (some r.parsed))) :=
  (answeredWait_run response cmd next).append <| Step.loopExit.cons <| Step.clear.cons <| .refl _

/-- The beginning of a call during which a response is stored before the first loop test, whatever
became of the frame. -/
def earlyAnswer (cmd : CommandPacket) (status : CanStatus) (r : ReadResult) : List Event :=
  [.canWrite cmd status, .isCancellationRequested false, .canRead r, .store r.parsed]

theorem earlyAnswer_run (response : r.IsResponse) (cmd : CommandPacket) (status : CanStatus)
    (next : Option ResponsePacket → Client α) :
    (machine α).Run (start (.writeCmdMsgRsp cmd next)) (earlyAnswer cmd status r)
      ⟨some r.parsed, .writeSync ⟨cmd, next⟩, .check⟩ := by
  have reads : Step ⟨none, .writeSync ⟨cmd, next⟩, .read⟩ (.canRead r)
      ⟨none, .writeSync ⟨cmd, next⟩, .store r.parsed⟩ :=
    afterRead_of_isResponse response ▸ Step.canRead r
  exact (Step.canWrite status).cons <| (Step.isCancellationRequested false).cons <| reads.cons <|
    Step.store.cons <| .refl _

/-- The rest of a call that finds the slot full at its first test: the body is never entered, and
null is returned. -/
def fullSlot (packet : ResponsePacket) : List Event :=
  [.canWriteSync canOK, .loopTest (some packet), .clear none]

theorem fullSlot_run (packet : ResponsePacket) (cmd : CommandPacket)
    (next : Option ResponsePacket → Client α) :
    (machine α).Run ⟨some packet, .writeSync ⟨cmd, next⟩, .check⟩ (fullSlot packet)
      (start (next none)) :=
  (Step.canWriteSync canOK).cons <| Step.loopExit.cons <| Step.clear.cons <| .refl _

/-- A client that does the same whatever it is answered runs to its end. -/
theorem exists_run (response : r.IsResponse) {client : Client α} {t : Transcript α}
    (performs : client.Performs t) :
    ∃ events, (machine α).Run (start client) events (start (liftM t.result)) ∧
      written events = t.commands ∧ ¬ FailedWrite events := by
  induction client generalizing t with
  | ret value =>
    obtain rfl := Client.performs_ret_iff.mp performs
    exact ⟨[], .refl _, rfl, by simp [FailedWrite]⟩
  | raise e =>
    obtain rfl := Client.performs_raise_iff.mp performs
    exact ⟨[], .refl _, rfl, by simp [FailedWrite]⟩
  | writeLine printed next ih =>
    obtain ⟨rest, after, rfl⟩ := Client.performs_writeLine_iff.mp performs
    obtain ⟨events, run, commands, fine⟩ := ih after
    exact ⟨.writeLine printed :: events, Step.writeLine.cons run, commands,
      by simpa [FailedWrite] using fine⟩
  | writeCmdMsgRsp cmd next ih =>
    obtain ⟨rest, after, rfl⟩ := Client.performs_call_iff.mp performs
    obtain ⟨events, run, commands, fine⟩ := ih _ (after (some r.parsed))
    refine ⟨answeredCall cmd r ++ events, (answeredCall_run response cmd next).append run,
      congrArg (cmd :: ·) commands, ?_⟩
    rintro ⟨attempted, status, member, failed⟩
    rcases List.mem_append.mp member with inCall | later
    · have same : attempted = cmd ∧ status = canOK := by
        simpa [answeredCall, answeredWait] using inCall
      exact failed same.2
    · exact fine ⟨attempted, status, later, failed⟩

/-- One call in the network: the device answers at once, and nothing is lost. -/
def networkCall (n : ℕ) (cmd : CommandPacket) (r : ReadResult) : List Action :=
  [.code (.canWrite cmd canOK), .deliver n cmd.mappedMsg, .answer n r, .code (.canWriteSync canOK),
    .code (.loopTest none), .code (.isCancellationRequested false), .receive n r,
    .code (.store r.parsed), .code (.loopBody (some r.parsed)), .code (.loopTest (some r.parsed)),
    .code (.clear (some r.parsed))]

theorem networkCall_run (response : r.IsResponse) (n : ℕ) (cmd : CommandPacket)
    (next : Option ResponsePacket → Client α) :
    (network α).Run (start (.writeCmdMsgRsp cmd next), ⟨n, [], [], []⟩) (networkCall n cmd r)
      (start (next (some r.parsed)), ⟨n + 1, [], [], []⟩) := by
  refine within_run_iff.mpr ⟨answeredCall_run response cmd next, ?_⟩
  simp [networkCall, Run.cons_iff, Bus.machine, Bus.step, Bus.write, response]

/-- One call in the network whose response is stored before the first loop test. -/
def earlyNetworkCall (n : ℕ) (cmd : CommandPacket) (r : ReadResult) : List Action :=
  [.code (.canWrite cmd canOK), .deliver n cmd.mappedMsg, .answer n r,
    .code (.isCancellationRequested false), .receive n r, .code (.store r.parsed),
    .code (.canWriteSync canOK), .code (.loopTest (some r.parsed)), .code (.clear none)]

theorem earlyNetworkCall_run (response : r.IsResponse) (n : ℕ) (cmd : CommandPacket)
    (next : Option ResponsePacket → Client α) :
    (network α).Run (start (.writeCmdMsgRsp cmd next), ⟨n, [], [], []⟩) (earlyNetworkCall n cmd r)
      (start (next none), ⟨n + 1, [], [], []⟩) := by
  refine within_run_iff.mpr ⟨(earlyAnswer_run response cmd canOK next).append (fullSlot_run _ _ _), ?_⟩
  simp [earlyNetworkCall, Run.cons_iff, Bus.machine, Bus.step, Bus.write, response]

/-- In the network, too, such a client runs to its end. -/
theorem exists_network_run (response : r.IsResponse) {client : Client α} {t : Transcript α}
    (performs : client.Performs t) (n : ℕ) :
    ∃ actions bus, (network α).Run (start client, ⟨n, [], [], []⟩) actions
      (start (liftM t.result), bus) := by
  induction client generalizing t n with
  | ret value =>
    obtain rfl := Client.performs_ret_iff.mp performs
    exact ⟨[], _, .refl _⟩
  | raise e =>
    obtain rfl := Client.performs_raise_iff.mp performs
    exact ⟨[], _, .refl _⟩
  | writeLine printed next ih =>
    obtain ⟨rest, after, rfl⟩ := Client.performs_writeLine_iff.mp performs
    obtain ⟨actions, bus, run⟩ := ih after n
    refine ⟨.code (.writeLine printed) :: actions, bus, Run.cons_iff.mpr ⟨_, ?_, run⟩⟩
    exact within_step_iff.mpr ⟨Step.writeLine.cons (.refl _), rfl⟩
  | writeCmdMsgRsp cmd next ih =>
    obtain ⟨rest, after, rfl⟩ := Client.performs_call_iff.mp performs
    obtain ⟨actions, bus, run⟩ := ih _ (after (some r.parsed)) (n + 1)
    exact ⟨_, bus, (networkCall_run response n cmd next).append run⟩

/-- A response frame with given contents. -/
def responseFrame (f : PacketFields) : ReadResult where
  status := canOK
  id := 0x7d2
  data := f.wire
  dlc := 8
  flags := 0
  timestamp := 0

theorem responseFrame_isResponse (f : PacketFields) : (responseFrame f).IsResponse := ⟨rfl, rfl⟩

/-- A command and a response, where it does not matter which. -/
def ping : CommandPacket := PacketFields.blank.toPacket .command

def pong : ReadResult := responseFrame PacketFields.blank

theorem pong_isResponse : pong.IsResponse := responseFrame_isResponse _

end OtaCli.Soundness.AnsweredCall
