import OtaCli.Machine.Refinement
import OtaCli.Model.PacketFields

/-! # Packets through their histories

A packet comes from one of three constructors and is then assigned to, property by property. The
caller may catch the exceptions of the assignments and go on with the object as they have left it
(`caught`), or only make assignments that return (`returning`). What the setters of a response do is
worked out here; they differ from those of a command when the array is not five bytes long.
-/

namespace OtaCli.Model

namespace Method

variable {σ α : Type}

/-- The object after a method has returned or thrown. -/
def after (body : Method σ α) (object : σ) : σ :=
  match body object with
  | .ok _ next => next
  | .error _ next => next

def Throws (body : Method σ α) (object : σ) : Prop := ∃ e next, body object = .error e next

theorem after_of_ok {body : Method σ α} {object next : σ} {a : α} (returned : body object = .ok a next) :
    body.after object = next := by
  rw [after, returned]

theorem after_of_error {body : Method σ α} {object next : σ} {e : Exception}
    (thrown : body object = .error e next) : body.after object = next := by
  rw [after, thrown]

theorem not_throws_of_ok {body : Method σ α} {object next : σ} {a : α}
    (returned : body object = .ok a next) : ¬ body.Throws object := by
  rintro ⟨e, other, thrown⟩
  rw [returned] at thrown
  cases thrown

end Method

/-- The expression that makes a packet. -/
inductive Origin where
  | create
  | ofCanMsg (msg : CanMsg)
  | ofFields (cmd crc size deviceId : UInt8) (data : Option (List UInt8))
deriving DecidableEq, Repr

def Origin.build (kind : PacketKind) : Origin → Except Exception (Packet kind)
  | .create => Packet.create
  | .ofCanMsg msg => Packet.ofCanMsg msg
  | .ofFields cmd crc size deviceId data => Packet.ofFields kind cmd crc size deviceId data

/-- The array given to the constructor. -/
@[simp] def Origin.array? : Origin → Option (List UInt8)
  | .ofFields _ _ _ _ data => data
  | _ => none

namespace Assignment

/-- The array of a `Data` assignment. -/
@[simp] def array? : Assignment → Option (List UInt8)
  | .data value => value
  | _ => none

/-- An array which is assigned has at least five bytes. -/
def Full (a : Assignment) : Prop := ∀ value, a.array? = some value → 5 ≤ value.length

theorem eq_data_of_array? {a : Assignment} {value : List UInt8} (given : a.array? = some value) :
    a = .data (some value) := by
  cases a <;> cases given
  rfl

end Assignment

namespace Packet

variable (kind : PacketKind)

/-- An assignment to a property of either class. -/
def assign : (kind : PacketKind) → Assignment → Method (Packet kind) Unit
  | .command => CommandPacket.assign
  | .response => ResponsePacket.assign

/-- Assignments whose exceptions are caught. -/
def caught : LabeledMachine (Packet kind) Assignment :=
  ⟨fun p a => some ((assign kind a).after p)⟩

/-- Assignments that return. -/
def returning : LabeledMachine (Packet kind) Assignment :=
  ⟨fun p a => match assign kind a p with
    | .ok _ next => some next
    | .error _ _ => none⟩

variable {kind} {p q : Packet kind} {a : Assignment}

@[simp] theorem caught_step : (caught kind).step p a = some ((assign kind a).after p) := rfl

theorem returning_step_iff : (returning kind).step p a = some q ↔ assign kind a p = .ok () q := by
  cases result : assign kind a p <;> simp [returning, result]

/-- A message that parses leaves an object in agreement. -/
theorem exists_fields_of_ofCanMsg {msg : CanMsg} (parsed : ofCanMsg msg = .ok p) :
    ∃ f : PacketFields, p = f.toPacket kind := by
  rcases Nat.lt_or_ge msg.data.length 8 with short | enough
  · rw [ofCanMsg_of_short msg short] at parsed
    cases parsed
  · have size : (msg.data.take 8).length = 8 := by
      rw [List.length_take]
      omega
    obtain ⟨bytes, received⟩ := exists_vector size
    exact ⟨_, Except.ok.inj (parsed.symm.trans (ofCanMsg_of_take msg bytes received.symm))⟩

/-- Every history has a run when the exceptions are caught. -/
theorem exists_caught_run (p : Packet kind) (history : List Assignment) :
    ∃ q, (caught kind).Run p history q := by
  induction history generalizing p with
  | nil => exact ⟨p, .refl p⟩
  | cons a rest ih =>
    obtain ⟨q, run⟩ := ih ((assign kind a).after p)
    exact ⟨q, LabeledMachine.Run.cons_iff.mpr ⟨_, caught_step, run⟩⟩

end Packet

/-- So does a command built from its fields. -/
theorem CommandPacket.exists_fields_of_ofFields {cmd crc size targetId : UInt8}
    {data : Option (List UInt8)} {p : CommandPacket}
    (built : ofFields cmd crc size targetId data = .ok p) :
    ∃ f : PacketFields, p = f.toPacket .command := by
  cases faulty : fault (.data data) with
  | some e =>
    rw [ofFields_of_fault _ _ _ _ faulty] at built
    cases built
  | none =>
    obtain ⟨value, rfl, short⟩ := fault_data_eq_none_iff.mp faulty
    rw [ofFields_eq _ _ _ _ short] at built
    exact ⟨_, (Except.ok.inj built).symm⟩

/-- Whichever constructor of a command returns, it leaves an object in agreement. -/
theorem CommandPacket.exists_fields_of_build {origin : Origin} {p : CommandPacket}
    (built : origin.build .command = .ok p) : ∃ f : PacketFields, p = f.toPacket .command := by
  cases origin with
  | create =>
    rw [Origin.build, Packet.create_eq] at built
    exact ⟨_, (Except.ok.inj built).symm⟩
  | ofCanMsg msg => exact Packet.exists_fields_of_ofCanMsg built
  | ofFields cmd crc size targetId data =>
    rw [Origin.build, Packet.ofFields] at built
    exact exists_fields_of_ofFields built

namespace ResponsePacket

open PacketFields

/-- The faults of a command packet's setter are faults here, too, and change nothing. -/
theorem assign_of_fault {a : Assignment} {e : Exception} (faulty : CommandPacket.fault a = some e)
    (p : ResponsePacket) : assign a p = .error e p := by
  match a, faulty with
  | .data none, faulty => cases faulty; rfl
  | .data (some value), faulty =>
    simp only [CommandPacket.fault] at faulty
    split at faulty
    · next long => cases faulty; simp [assign, setData, long]
    · contradiction

/-- An array that is too short is kept before the exception comes. -/
theorem assign_of_short {value : List UInt8} (short : value.length < 5) {p : ResponsePacket}
    (mapped : p.mappedMsg.data.length = 8) :
    ∃ after, assign (.data (some value)) p = .error .indexOutOfRange after ∧ after.data = value := by
  obtain ⟨after, thrown, same⟩ := Packet.recompileMsg_of_short (p.withData value) short mapped
  have notLong : ¬ value.length > 5 := by omega
  simp only [assign, setData, Method.bind_apply, notLong, ↓reduceIte, Method.modify_apply]
  exact ⟨after, thrown, same⟩

/-- On a full array the setter does what that of a command does. -/
theorem assign_toPacket {a : Assignment} (fine : CommandPacket.fault a = none) (full : a.Full)
    (f : PacketFields) :
    assign a (f.toPacket .response) = .ok () ((f.assign a).toPacket .response) := by
  match a, fine, full with
  | .cmd value, _, _ => exact f.setCmd_toPacket value
  | .crc value, _, _ => exact f.setCrc_toPacket value
  | .size value, _, _ => exact f.setSize_toPacket value
  | .deviceId value, _, _ => exact f.setDeviceId_toPacket value
  | .data (some value), fine, full =>
    obtain ⟨_, ⟨⟩, short⟩ := CommandPacket.fault_data_eq_none_iff.mp fine
    have five : value.length = 5 := Nat.le_antisymm short (full value rfl)
    have stored : (f.storeData value).data.toList = value := by
      rw [f.storeData_toList short, List.overwrite_of_length_eq (by simp [five])]
      simp
    simp only [assign, setData, Method.bind_apply, gt_iff_lt, Nat.not_lt.mpr short, ↓reduceIte,
      Method.modify_apply, PacketFields.assign, Option.getD_some]
    apply PacketFields.recompileMsg_toPacket
    · simp only [PacketFields.toPacket, Packet.withMapped, stored]
      rfl
    · simp [PacketFields.toPacket]

/-- While its array is too short, a response takes no assignment to another property. -/
theorem assignField_of_short {p : ResponsePacket} (short : p.data.length < 5)
    (mapped : p.mappedMsg.data.length = 8) {store : ResponsePacket → ResponsePacket}
    (sameData : (store p).data = p.data) (sameMapped : (store p).mappedMsg = p.mappedMsg) :
    (Packet.assignField store).Throws p := by
  obtain ⟨after, thrown, -⟩ :=
    Packet.recompileMsg_of_short (store p) (by rwa [sameData]) (by rwa [sameMapped])
  exact ⟨_, after, by simpa [Packet.assignField] using thrown⟩

/-- The constructor does not look at the length of the array until it recompiles. -/
theorem ofFields_of_short (cmd crc size senderId : UInt8) {value : List UInt8}
    (short : value.length < 5) :
    ofFields cmd crc size senderId (some value) = .error .indexOutOfRange := by
  obtain ⟨after, thrown, -⟩ := Packet.recompileMsg_of_short
    (⟨cmd, crc, size, senderId, value, (blank.toPacket .response).mappedMsg⟩ : ResponsePacket)
    short rfl
  apply Packet.construct_of_error
  simp only [Method.bind_apply, writeId_blank, Method.modify_apply]
  exact thrown

/-- A longer array is kept whole, and its first five bytes are sent. -/
theorem ofFields_of_le (cmd crc size senderId : UInt8) {value : List UInt8} (enough : 5 ≤ value.length) :
    ofFields cmd crc size senderId (some value) =
      .ok ((⟨cmd, crc, size, senderId, value, (blank.toPacket .response).mappedMsg⟩ :
        ResponsePacket).withMapped
          (cmd :: packCrcSize crc size :: senderId :: value.take 5)) := by
  apply Packet.construct_of_ok
  simp only [Method.bind_apply, writeId_blank, Method.modify_apply]
  exact Packet.recompileMsg_of_le _ enough rfl

/-- What the constructor was given where it returns, and what it makes of it. -/
theorem ofFields_cases {cmd crc size senderId : UInt8} {data : Option (List UInt8)} {p : ResponsePacket}
    (built : ofFields cmd crc size senderId data = .ok p) :
    ∃ value, data = some value ∧ 5 ≤ value.length ∧
      p = (⟨cmd, crc, size, senderId, value, (blank.toPacket .response).mappedMsg⟩ :
        ResponsePacket).withMapped (cmd :: packCrcSize crc size :: senderId :: value.take 5) := by
  cases data with
  | none => cases built
  | some value =>
    rcases Nat.lt_or_ge value.length 5 with short | enough
    · rw [ofFields_of_short _ _ _ _ short] at built
      cases built
    · rw [ofFields_of_le _ _ _ _ enough] at built
      exact ⟨value, rfl, enough, (Except.ok.inj built).symm⟩

/-- The array of the constructor is the array of the new object. -/
theorem data_of_build {origin : Origin} {p : ResponsePacket} (built : origin.build .response = .ok p)
    {value : List UInt8} (given : origin.array? = some value) : p.data = value := by
  match origin, given with
  | .ofFields cmd crc size senderId (some _), rfl =>
    rw [Origin.build, Packet.ofFields] at built
    obtain ⟨_, same, -, rfl⟩ := ofFields_cases built
    exact (Option.some.inj same).symm

/-- A constructor that returns, and was not given too long an array, leaves an object in agreement. -/
theorem exists_fields_of_build {origin : Origin} {p : ResponsePacket}
    (built : origin.build .response = .ok p)
    (fits : ∀ value, origin.array? = some value → value.length ≤ 5) :
    ∃ f : PacketFields, p = f.toPacket .response := by
  match origin, built with
  | .create, built => exact ⟨blank, Except.ok.inj (built.symm.trans Packet.create_eq)⟩
  | .ofCanMsg msg, built => exact Packet.exists_fields_of_ofCanMsg built
  | .ofFields cmd crc size senderId data, built =>
    rw [Origin.build, Packet.ofFields] at built
    obtain ⟨value, rfl, enough, -⟩ := ofFields_cases built
    obtain ⟨bytes, rfl⟩ := exists_vector (Nat.le_antisymm (fits value rfl) enough)
    exact ⟨⟨cmd, crc, size, senderId, bytes⟩,
      Except.ok.inj (built.symm.trans (ofFields_eq cmd crc size senderId bytes))⟩

end ResponsePacket

/-- What an assignment whose exception is caught means for the fields. -/
def PacketFields.caught (f : PacketFields) (a : Assignment) : PacketFields :=
  match CommandPacket.fault a with
  | none => f.assign a
  | some _ => f

namespace Packet

open PacketFields

variable {kind : PacketKind} {a : Assignment}

/-- In either class a faulting assignment changes nothing. -/
theorem assign_of_fault {e : Exception} (faulty : CommandPacket.fault a = some e) (p : Packet kind) :
    assign kind a p = .error e p := by
  cases kind with
  | command => exact CommandPacket.assign_of_fault faulty p
  | response => exact ResponsePacket.assign_of_fault faulty p

/-- Any other acts on the fields, if a response is given full arrays. -/
theorem assign_toPacket (fine : CommandPacket.fault a = none) (full : kind = .response → a.Full)
    (f : PacketFields) : assign kind a (f.toPacket kind) = .ok () ((f.assign a).toPacket kind) := by
  cases kind with
  | command => exact CommandPacket.assign_toPacket fine f
  | response => exact ResponsePacket.assign_toPacket fine (full rfl) f

theorem throws_iff (full : kind = .response → a.Full) (f : PacketFields) :
    (assign kind a).Throws (f.toPacket kind) ↔ CommandPacket.fault a ≠ none := by
  cases faulty : CommandPacket.fault a with
  | none => exact iff_of_false (Method.not_throws_of_ok (assign_toPacket faulty full f)) (by simp)
  | some e => exact iff_of_true ⟨e, _, assign_of_fault faulty _⟩ (by simp)

theorem after_toPacket (full : kind = .response → a.Full) (f : PacketFields) :
    (assign kind a).after (f.toPacket kind) = (f.caught a).toPacket kind := by
  cases faulty : CommandPacket.fault a with
  | none =>
    rw [PacketFields.caught, faulty]
    exact Method.after_of_ok (assign_toPacket faulty full f)
  | some e =>
    rw [PacketFields.caught, faulty]
    exact Method.after_of_error (assign_of_fault faulty _)

/-- An object that agrees with its fields goes on doing so. -/
theorem fields_of_caught_run {f : PacketFields} {history : List Assignment}
    (full : kind = .response → ∀ a ∈ history, a.Full) {q : Packet kind}
    (run : (caught kind).Run (f.toPacket kind) history q) :
    q = (history.foldl PacketFields.caught f).toPacket kind := by
  refine run.invariant (I := fun before q => (kind = .response → ∀ a ∈ before, a.Full) →
    q = (before.foldl PacketFields.caught f).toPacket kind) (fun _ => rfl) ?_ full
  rintro before q a next - holds stepped full
  obtain rfl := holds fun response b member => full response b (List.mem_append_left _ member)
  obtain rfl := Option.some.inj stepped
  rw [List.foldl_concat]
  exact after_toPacket (fun response => full response a (by simp)) _

end Packet

/-- Assignments without a fault can be made to a command one after the other. -/
theorem CommandPacket.run_of_fine {history : List Assignment} (fine : ∀ a ∈ history, fault a = none)
    (f : PacketFields) : (Packet.returning .command).Run (f.toPacket .command) history
      ((history.foldl PacketFields.assign f).toPacket .command) := by
  induction history generalizing f with
  | nil => exact .refl _
  | cons a rest ih =>
    obtain ⟨here, later⟩ := List.forall_mem_cons.mp fine
    have returned : Packet.assign .command a (f.toPacket .command) = .ok () _ := assign_toPacket here f
    have stepped := Packet.returning_step_iff.mpr returned
    exact LabeledMachine.Run.cons_iff.mpr ⟨_, stepped, ih later _⟩

end OtaCli.Model
