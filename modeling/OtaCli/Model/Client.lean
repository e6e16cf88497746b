import OtaCli.Model.Packet

/-! # Sequential code that talks to the device

The updaters run on one thread and reach the bus only through `WriteCmdMsgRsp`. `Client` is such
code up to the call: it prints, throws, returns, or calls and goes on with whatever is returned.
The same object is run by the threads of `KvaserInterface` and, here, against given answers.
A client `Performs` a transcript when the answers make no difference to it.
-/

namespace OtaCli.Model

/-- The rest of a thread's code, cut at its next observable action. -/
inductive Client (α : Type) where
  | ret (value : α)
  | raise (e : Exception)
  | writeLine (value : Int32) (next : Client α)
  | writeCmdMsgRsp (cmd : CommandPacket) (next : Option ResponsePacket → Client α)

namespace Client

variable {α β : Type}

protected def bind (c : Client α) (f : α → Client β) : Client β :=
  match c with
  | .ret value => f value
  | .raise e => .raise e
  | .writeLine value next => .writeLine value (next.bind f)
  | .writeCmdMsgRsp cmd next => .writeCmdMsgRsp cmd fun response => (next response).bind f

instance : Monad Client where
  pure := .ret
  bind := Client.bind

instance : MonadLift (Except Exception) Client where
  monadLift value := match value with
    | .ok a => .ret a
    | .error e => .raise e

/-- `Console.WriteLine` of a number. -/
def print (value : Int32) : Client Unit := .writeLine value (.ret ())

/-- The call as seen by the caller. -/
def call (cmd : CommandPacket) : Client (Option ResponsePacket) := .writeCmdMsgRsp cmd .ret

@[simp] theorem ret_bind (value : α) (f : α → Client β) : Client.ret value >>= f = f value := rfl

@[simp] theorem lift_ok (value : α) :
    (liftM (Except.ok value : Except Exception α) : Client α) = .ret value := rfl

@[simp] theorem lift_error (e : Exception) :
    (liftM (Except.error e : Except Exception α) : Client α) = .raise e := rfl

@[simp] theorem raise_bind (e : Exception) (f : α → Client β) : Client.raise e >>= f = .raise e := rfl

@[simp] theorem print_bind (value : Int32) (f : Unit → Client β) :
    print value >>= f = .writeLine value (f ()) := rfl

@[simp] theorem call_bind (cmd : CommandPacket) (f : Option ResponsePacket → Client β) :
    call cmd >>= f = .writeCmdMsgRsp cmd f := rfl

end Client

/-- What a client that came to its end has done. -/
structure Transcript (α : Type) where
  commands : List CommandPacket
  printed : List Int32
  result : Except Exception α

namespace Client

variable {α β : Type}

/-- Run the client against the given answers, one for each call; later calls get null. -/
def transcript : Client α → List (Option ResponsePacket) → Transcript α
  | .ret value, _ => ⟨[], [], .ok value⟩
  | .raise e, _ => ⟨[], [], .error e⟩
  | .writeLine value next, answers =>
    let rest := next.transcript answers
    { rest with printed := value :: rest.printed }
  | .writeCmdMsgRsp cmd next, answers =>
    let rest := (next answers.head?.join).transcript answers.tail
    { rest with commands := cmd :: rest.commands }

/-- The client does the same whatever it is answered. -/
def Performs (c : Client α) (t : Transcript α) : Prop := ∀ answers, c.transcript answers = t

@[simp] theorem performs_ret_iff {value : α} {t : Transcript α} :
    Performs (.ret value) t ↔ t = ⟨[], [], .ok value⟩ :=
  ⟨fun performs => (performs []).symm, fun same _ => same.symm⟩

@[simp] theorem performs_raise_iff {e : Exception} {t : Transcript α} :
    Performs (.raise e) t ↔ t = ⟨[], [], .error e⟩ :=
  ⟨fun performs => (performs []).symm, fun same _ => same.symm⟩

theorem performs_writeLine_iff {value : Int32} {next : Client α} {t : Transcript α} :
    Performs (.writeLine value next) t ↔
      ∃ rest, Performs next rest ∧ t = { rest with printed := value :: rest.printed } := by
  constructor
  · intro performs
    refine ⟨next.transcript [], fun answers => ?_, (performs []).symm⟩
    have same := (performs answers).trans (performs []).symm
    simp only [transcript, Transcript.mk.injEq, List.cons.injEq, true_and] at same
    rcases left : next.transcript answers with ⟨_, _, _⟩
    rcases right : next.transcript [] with ⟨_, _, _⟩
    simpa only [left, right, Transcript.mk.injEq] using same
  · rintro ⟨rest, performs, rfl⟩ answers
    simp only [transcript, performs answers]

/-- After a call, every answer leads to the same rest. -/
theorem performs_call_iff {cmd : CommandPacket} {next : Option ResponsePacket → Client α}
    {t : Transcript α} :
    Performs (.writeCmdMsgRsp cmd next) t ↔
      ∃ rest, (∀ response, Performs (next response) rest) ∧
        t = { rest with commands := cmd :: rest.commands } := by
  constructor
  · intro performs
    refine ⟨(next none).transcript [], fun response answers => ?_, (performs [none]).symm⟩
    have same := (performs (response :: answers)).trans (performs [none]).symm
    simp only [transcript, List.head?_cons, Option.join_some, List.tail_cons, Transcript.mk.injEq,
      List.cons.injEq, true_and] at same
    rcases left : (next response).transcript answers with ⟨_, _, _⟩
    rcases right : (next none).transcript [] with ⟨_, _, _⟩
    simpa only [left, right, Transcript.mk.injEq] using same
  · rintro ⟨rest, performs, rfl⟩ answers
    simp only [transcript, performs _ answers.tail]

/-- Sequencing after a part that returns. -/
theorem Performs.bind {c : Client α} {f : α → Client β} {t : Transcript α} {u : Transcript β} {a : α}
    (first : Performs c t) (returned : t.result = .ok a) (second : Performs (f a) u) :
    Performs (c >>= f) ⟨t.commands ++ u.commands, t.printed ++ u.printed, u.result⟩ := by
  change Performs (c.bind f) _
  induction c generalizing t with
  | ret value =>
    obtain rfl := performs_ret_iff.mp first
    cases returned
    exact second
  | raise e =>
    obtain rfl := performs_raise_iff.mp first
    cases returned
  | writeLine value next ih =>
    obtain ⟨rest, performs, rfl⟩ := performs_writeLine_iff.mp first
    exact performs_writeLine_iff.mpr ⟨_, ih performs returned, rfl⟩
  | writeCmdMsgRsp cmd next ih =>
    obtain ⟨rest, performs, rfl⟩ := performs_call_iff.mp first
    exact performs_call_iff.mpr ⟨_, fun response => ih response (performs response) returned, rfl⟩

/-- Sequencing after a part that throws. -/
theorem Performs.bind_error {c : Client α} {f : α → Client β} {t : Transcript α} {e : Exception}
    (first : Performs c t) (thrown : t.result = .error e) :
    Performs (c >>= f) ⟨t.commands, t.printed, .error e⟩ := by
  change Performs (c.bind f) _
  induction c generalizing t with
  | ret value =>
    obtain rfl := performs_ret_iff.mp first
    cases thrown
  | raise raised =>
    obtain rfl := performs_raise_iff.mp first
    cases thrown
    exact performs_raise_iff.mpr rfl
  | writeLine value next ih =>
    obtain ⟨rest, performs, rfl⟩ := performs_writeLine_iff.mp first
    exact performs_writeLine_iff.mpr ⟨_, ih performs thrown, rfl⟩
  | writeCmdMsgRsp cmd next ih =>
    obtain ⟨rest, performs, rfl⟩ := performs_call_iff.mp first
    exact performs_call_iff.mpr ⟨_, fun response => ih response (performs response) thrown, rfl⟩

end Client

end OtaCli.Model
