import OtaCli.Machine.DataRefinement
import OtaCli.Model.PacketObject

/-! # The bodies of the packet classes, on references and on values

A constructor or a setter works on arrays to which it has references. Where it is called with arrays that are not
the object's own, it does what the body on values does with their contents, and it writes to no array but its own.
A command copies what it is given; a response keeps the reference.
-/

namespace OtaCli.Proofs.PacketBodies

open Model LabeledMachine EStateM

variable {kind : PacketKind}

/-- A method that was called on `base` has come to `s`, where the object shows `p` and has the data array `array`.
It has written to the object's own arrays at most, the wire image among them. -/
structure Acts (own : Ref → Prop) (base : Receiver kind) (array : Ref) (s : Receiver kind) (p : Packet kind) :
    Prop where
  shows : s.this.value s.arrays = p
  data : s.this.data = array
  frame : s.this.mappedMsg.data = base.this.mappedMsg.data
  mine : own base.this.mappedMsg.data
  apart : array ≠ base.this.mappedMsg.data
  kept : ∀ r, ¬ own r → s.arrays.bytes r = base.arrays.bytes r
  full : (s.arrays.bytes base.this.mappedMsg.data).length = 8
  next : s.arrays.next = base.arrays.next

section Methods

open PacketObject

variable {own : Ref → Prop} {base : Receiver kind} {array : Ref}

theorem lift_refines {σ τ α : Type} {related : σ → τ → Prop} (value : Except Exception α) :
    Refines related (liftM value : Method σ α) (liftM value : Method τ α) := by
  intro s t holds
  cases value <;> exact ⟨rfl, holds⟩

private theorem length_of_assignElement {array bytes : List UInt8} {index : ℕ} {value : UInt8}
    (assigned : assignElement array index value = .ok bytes) : bytes.length = array.length := by
  rw [assignElement] at assigned
  split at assigned <;> cases assigned
  exact List.length_set

/-- A write to the wire image. -/
theorem writeMapped_refines (index : ℕ) (value : UInt8) :
    Refines (Acts own base array) (writeMapped index value) (Packet.writeMapped index value) := by
  rintro s _ ⟨rfl, rfl, frame, mine, apart, kept, full, next⟩
  cases assigned : assignElement (s.arrays.bytes s.this.mappedMsg.data) index value with
  | error e =>
    have concrete : writeMapped index value s = .error e s := by simp [writeMapped, writeArray, assigned]
    have abstract : Packet.writeMapped index value (s.this.value s.arrays) = .error e (s.this.value s.arrays) := by
      simp [Packet.writeMapped, PacketObject.value, CanMsgObject.value, assigned]
    rw [concrete, abstract]
    exact ⟨rfl, rfl, rfl, frame, mine, apart, kept, full, next⟩
  | ok bytes =>
    have concrete : writeMapped index value s =
        .ok () { s with arrays := s.arrays.store s.this.mappedMsg.data bytes } := by
      simp [writeMapped, writeArray, assigned]
    have abstract : Packet.writeMapped index value (s.this.value s.arrays) =
        .ok () ((s.this.value s.arrays).withMapped bytes) := by
      simp [Packet.writeMapped, Packet.withMapped, PacketObject.value, CanMsgObject.value, assigned]
    rw [concrete, abstract]
    refine ⟨rfl, ?_, rfl, frame, mine, apart, ?_, ?_, next⟩
    · simp [PacketObject.value, CanMsgObject.value, Packet.withMapped, Arrays.store_bytes_of_ne, frame, apart]
    · intro r other
      rw [frame, Arrays.store_bytes_of_ne _ (by rintro rfl; exact other mine)]
      exact kept r other
    · rw [frame, Arrays.store_bytes_self, length_of_assignElement assigned, frame]
      exact full

/-- A write to the data array, as long as it is the object's own. -/
theorem writeData_refines (owned : own base.this.data) (index : ℕ) (value : UInt8) :
    Refines (Acts own base base.this.data) (writeData index value) (Packet.writeData index value) := by
  rintro s _ ⟨rfl, data, frame, mine, apart, kept, full, next⟩
  cases assigned : assignElement (s.arrays.bytes s.this.data) index value with
  | error e =>
    have concrete : writeData index value s = .error e s := by simp [writeData, writeArray, assigned]
    have abstract : Packet.writeData index value (s.this.value s.arrays) = .error e (s.this.value s.arrays) := by
      simp [Packet.writeData, PacketObject.value, assigned]
    rw [concrete, abstract]
    exact ⟨rfl, rfl, data, frame, mine, apart, kept, full, next⟩
  | ok bytes =>
    have concrete : writeData index value s = .ok () { s with arrays := s.arrays.store s.this.data bytes } := by
      simp [writeData, writeArray, assigned]
    have abstract : Packet.writeData index value (s.this.value s.arrays) =
        .ok () ((s.this.value s.arrays).withData bytes) := by
      simp [Packet.writeData, Packet.withData, PacketObject.value, assigned]
    rw [concrete, abstract]
    refine ⟨rfl, ?_, data, frame, mine, apart, ?_, ?_, next⟩
    · simp [PacketObject.value, CanMsgObject.value, Packet.withData, Arrays.store_bytes_of_ne, data, frame,
        apart.symm]
    · intro r other
      rw [data, Arrays.store_bytes_of_ne _ (by rintro rfl; exact other owned)]
      exact kept r other
    · rw [data, Arrays.store_bytes_of_ne _ apart.symm]
      exact full

/-- A statement on the fields. -/
theorem update_refines {change : PacketObject kind → PacketObject kind} {store : Packet kind → Packet kind}
    (shows : ∀ this arrays, (change this).value arrays = store (this.value arrays))
    (data : ∀ this, (change this).data = this.data)
    (frame : ∀ this, (change this).mappedMsg.data = this.mappedMsg.data) :
    Refines (Acts own base array) (update change) (modify store) := by
  rintro s _ ⟨rfl, same, inFrame, mine, apart, kept, full, next⟩
  exact ⟨rfl, shows _ _, (data _).trans same, (frame _).trans inFrame, mine, apart, kept, full, next⟩

private theorem mapDataBytes_refines (rounds i dataBytePointer : ℕ) : Refines (Acts own base array)
    (mapDataBytes rounds i dataBytePointer) (Packet.mapDataBytes rounds i dataBytePointer) := by
  induction rounds generalizing i dataBytePointer with
  | zero => exact .pure ()
  | succ rounds ih =>
    refine .get fun s p acts => ?_
    obtain rfl := acts.shows
    exact ((lift_refines (element (s.arrays.bytes s.this.data) dataBytePointer)).bind fun byte =>
      (writeMapped_refines i byte).bind fun _ => ih _ _) s _ acts

theorem recompileMsg_refines : Refines (Acts own base array) recompileMsg Packet.recompileMsg := by
  refine .get fun s p acts => ?_
  obtain rfl := acts.shows
  refine ((writeMapped_refines 0 s.this.cmd).bind fun _ => ?_) s _ acts
  refine .get fun s p acts => ?_
  obtain rfl := acts.shows
  refine ((writeMapped_refines 1 (packCrcSize s.this.crc s.this.size)).bind fun _ => ?_) s _ acts
  refine .get fun s p acts => ?_
  obtain rfl := acts.shows
  exact ((writeMapped_refines 2 s.this.deviceId).bind fun _ => mapDataBytes_refines 5 3 0) s _ acts

theorem assignField_refines {change : PacketObject kind → PacketObject kind} {store : Packet kind → Packet kind}
    (shows : ∀ this arrays, (change this).value arrays = store (this.value arrays))
    (data : ∀ this, (change this).data = this.data)
    (frame : ∀ this, (change this).mappedMsg.data = this.mappedMsg.data) :
    Refines (Acts own base array) (assignField change) (Packet.assignField store) :=
  (update_refines shows data frame).bind fun _ => recompileMsg_refines

theorem setCmd_refines (value : UInt8) : Refines (Acts own base array) (setCmd value) (Packet.setCmd value) :=
  assignField_refines (fun _ _ => rfl) (fun _ => rfl) fun _ => rfl

theorem setCrc_refines (value : UInt8) : Refines (Acts own base array) (setCrc value) (Packet.setCrc value) :=
  assignField_refines (fun _ _ => rfl) (fun _ => rfl) fun _ => rfl

theorem setSize_refines (value : UInt8) : Refines (Acts own base array) (setSize value) (Packet.setSize value) :=
  assignField_refines (fun _ _ => rfl) (fun _ => rfl) fun _ => rfl

theorem setDeviceId_refines (value : UInt8) :
    Refines (Acts own base array) (setDeviceId value) (Packet.setDeviceId value) :=
  assignField_refines (fun _ _ => rfl) (fun _ => rfl) fun _ => rfl

theorem writeId_refines : Refines (Acts own base array) writeId Packet.writeId :=
  update_refines (fun _ _ => rfl) (fun _ => rfl) fun _ => rfl

/-- What came of a call with the array `given`, which a response may have kept. -/
def Worked (own : Ref → Prop) (base : Receiver kind) (given : Option Ref) (s : Receiver kind) (p : Packet kind) :
    Prop :=
  ∃ array, (array = base.this.data ∨ kind = .response ∧ given = some array) ∧ Acts own base array s p

theorem Acts.worked {given : Option Ref} {s : Receiver kind} {p : Packet kind}
    (acts : Acts own base base.this.data s p) : Worked own base given s p := ⟨_, .inl rfl, acts⟩

section Given

variable {given : Ref} (other : ¬ own given)
include other

/-- An array of the caller's stays as it was while a method reads it. -/
theorem readArray_refines (index : ℕ) : Refines (Acts own base array) (readArray given index)
    (liftM (element (base.arrays.bytes given) index)) := by
  intro s p acts
  rw [← acts.kept given other]
  exact lift_refines (element (s.arrays.bytes given) index) s p acts

private theorem readDataBytes_refines (owned : own base.this.data) (rounds i dataBytePointer : ℕ) :
    Refines (Acts own base base.this.data) (readDataBytes given rounds i dataBytePointer)
      (Packet.readDataBytes { data := base.arrays.bytes given } rounds i dataBytePointer) := by
  induction rounds generalizing i dataBytePointer with
  | zero => exact .pure ()
  | succ rounds ih =>
    exact (readArray_refines other i).bind fun byte => (writeData_refines owned _ byte).bind fun _ => ih _ _

private theorem ofCanMsg_refines (owned : own base.this.data) :
    ∃ body, Packet.ofCanMsg { data := base.arrays.bytes given } = Packet.construct body ∧
      Refines (Acts own base base.this.data) (ofCanMsg given) body := by
  refine ⟨_, rfl, ?_⟩
  refine writeId_refines.bind fun _ => (readArray_refines other 0).bind fun cmd => ?_
  refine .bind (update_refines (fun _ _ => rfl) (fun _ => rfl) fun _ => rfl) fun _ => ?_
  refine (readArray_refines other 1).bind fun crc => ?_
  refine .bind (update_refines (fun _ _ => rfl) (fun _ => rfl) fun _ => rfl) fun _ => ?_
  refine (readArray_refines other 1).bind fun size => ?_
  refine .bind (update_refines (fun _ _ => rfl) (fun _ => rfl) fun _ => rfl) fun _ => ?_
  refine (readArray_refines other 2).bind fun deviceId => ?_
  refine .bind (update_refines (fun _ _ => rfl) (fun _ => rfl) fun _ => rfl) fun _ => ?_
  exact (readDataBytes_refines other owned 5 3 0).bind fun _ => recompileMsg_refines

end Given

private theorem create_refines : ∃ body, (Packet.create : Except Exception (Packet kind)) = Packet.construct body ∧
    Refines (Acts own base array) create body :=
  ⟨_, rfl, writeId_refines.bind fun _ => recompileMsg_refines⟩

end Methods

section Command

open PacketObject CommandObject

variable {own : Ref → Prop} {base : Receiver .command}

private theorem copyDataBytes_refines (owned : own base.this.data) {given : Ref} (other : ¬ own given)
    (rounds i : ℕ) :
    Refines (Acts own base base.this.data) (copyDataBytes given rounds i)
      (CommandPacket.copyDataBytes (base.arrays.bytes given) rounds i) := by
  induction rounds generalizing i with
  | zero => exact .pure ()
  | succ rounds ih =>
    exact (readArray_refines other i).bind fun byte => (writeData_refines owned i byte).bind fun _ => ih _

/-- A command copies what it is given. -/
theorem command_setData_refines (owned : own base.this.data) {given : Option Ref}
    (outside : ∀ r, given = some r → ¬ own r) :
    Refines (Acts own base base.this.data) (setData given) (CommandPacket.setData (given.map base.arrays.bytes)) := by
  intro s p acts
  cases given with
  | none => exact ⟨rfl, acts⟩
  | some given =>
    have other := outside given rfl
    have same := acts.kept given other
    simp only [setData, CommandPacket.setData, Option.map_some, Method.bind_apply, Method.get_apply, same]
    split
    · exact ⟨rfl, acts⟩
    · exact ((copyDataBytes_refines owned other _ 0).bind fun _ => recompileMsg_refines) s p acts

private theorem command_ofFields_refines (owned : own base.this.data) (cmd crc size targetId : UInt8)
    {given : Option Ref} (outside : ∀ r, given = some r → ¬ own r) :
    ∃ body, CommandPacket.ofFields cmd crc size targetId (given.map base.arrays.bytes) = Packet.construct body ∧
      Refines (Acts own base base.this.data) (ofFields cmd crc size targetId given) body := by
  refine ⟨_, rfl, ?_⟩
  refine writeId_refines.bind fun _ => (setCmd_refines cmd).bind fun _ => (setCrc_refines crc).bind fun _ => ?_
  refine (setSize_refines size).bind fun _ => (setDeviceId_refines targetId).bind fun _ => ?_
  exact (command_setData_refines owned outside).bind fun _ => recompileMsg_refines

end Command

section Response

open PacketObject ResponseObject

variable {own : Ref → Prop} {base : Receiver .response} {array : Ref}

/-- The reference is taken over. -/
theorem Acts.keep {given : Ref} {s : Receiver .response} {p : ResponsePacket} (acts : Acts own base array s p)
    (other : ¬ own given) :
    Acts own base given ⟨{ s.this with data := given }, s.arrays⟩ (p.withData (s.arrays.bytes given)) := by
  obtain ⟨rfl, -, frame, mine, -, kept, full, next⟩ := acts
  exact ⟨rfl, rfl, frame, mine, by rintro rfl; exact other mine, kept, full, next⟩

/-- A response keeps what it is given, unless that is too long. -/
private theorem response_setData_agree {given : Option Ref} {p : ResponsePacket}
    (outside : ∀ r, given = some r → ¬ own r) (acts : Acts own base base.this.data base p) :
    (setData given base).Agree (Worked own base given) (ResponsePacket.setData (given.map base.arrays.bytes) p) := by
  cases given with
  | none => exact ⟨rfl, acts.worked⟩
  | some given =>
    simp only [setData, ResponsePacket.setData, Option.map_some, Method.bind_apply, Method.get_apply]
    split
    · exact ⟨rfl, acts.worked⟩
    · have kept := acts.keep (outside given rfl)
      exact (recompileMsg_refines _ _ kept).mono fun s p worked => ⟨given, .inr ⟨rfl, rfl⟩, worked⟩

private theorem response_ofFields_agree (cmd crc size senderId : UInt8) {given : Option Ref}
    (outside : ∀ r, given = some r → ¬ own r) (acts : Acts own base base.this.data base {}) :
    ∃ body, ResponsePacket.ofFields cmd crc size senderId (given.map base.arrays.bytes) = Packet.construct body ∧
      (ofFields cmd crc size senderId given base).Agree (Worked own base given) (body {}) := by
  refine ⟨_, rfl, ?_⟩
  have fields : Refines (Acts own base base.this.data)
      (update fun this => { this with cmd := cmd, crc := crc, size := size, deviceId := senderId })
      (modify fun packet => { packet with cmd := cmd, crc := crc, size := size, deviceId := senderId }) :=
    update_refines (fun _ _ => rfl) (fun _ => rfl) fun _ => rfl
  refine (writeId_refines base {} acts).bind ?_ fun s p acts => acts.worked
  intro _ s p acts
  refine (fields s p acts).bind ?_ fun s p acts => acts.worked
  intro _ s p acts
  cases given with
  | none => exact ⟨rfl, acts.worked⟩
  | some given =>
    have other := outside given rfl
    have kept := acts.keep other
    rw [acts.kept given other] at kept
    exact (recompileMsg_refines _ _ kept).mono fun s p worked => ⟨given, .inr ⟨rfl, rfl⟩, worked⟩

end Response

/-- A constructor does on references what it does on values. -/
private theorem making_agree {own : Ref → Prop} {base : Receiver kind} (acts : Acts own base base.this.data base {})
    (owned : own base.this.data) {making : Making Ref} (outside : ∀ r, making.array? = some r → ¬ own r) :
    ∃ body, (making.map base.arrays.bytes).origin.build kind = Packet.construct body ∧
      (making.body kind base).Agree (Worked own base making.array?) (body {}) := by
  have works {given : Option Ref} (s : Receiver kind) (p : Packet kind) (acts : Acts own base base.this.data s p) :
      Worked own base given s p := acts.worked
  cases making with
  | create =>
    obtain ⟨body, same, refines⟩ := @create_refines kind own base base.this.data
    exact ⟨body, same, (refines _ _ acts).mono works⟩
  | ofCanMsg msg =>
    obtain ⟨body, same, refines⟩ := ofCanMsg_refines (outside msg rfl) owned
    exact ⟨body, same, (refines _ _ acts).mono works⟩
  | ofFields cmd crc size deviceId data =>
    cases kind with
    | command =>
      obtain ⟨body, same, refines⟩ := command_ofFields_refines owned cmd crc size deviceId outside
      exact ⟨body, same, (refines _ _ acts).mono works⟩
    | response => exact response_ofFields_agree cmd crc size deviceId outside acts

/-- So does an assignment. -/
theorem setting_agree {own : Ref → Prop} {base : Receiver kind} {p : Packet kind}
    (acts : Acts own base base.this.data base p) (owned : kind = .command → own base.this.data)
    {setting : Setting Ref} (outside : ∀ r, setting.array? = some r → ¬ own r) :
    (setting.body kind base).Agree (Worked own base setting.array?)
      (Packet.assign kind (setting.map base.arrays.bytes).assignment p) := by
  have works {given : Option Ref} (s : Receiver kind) (p : Packet kind) (acts : Acts own base base.this.data s p) :
      Worked own base given s p := acts.worked
  cases setting with
  | data value =>
    cases kind with
    | command => exact (command_setData_refines (owned rfl) outside _ _ acts).mono works
    | response => exact response_setData_agree outside acts
  | cmd value => cases kind <;> exact (setCmd_refines value _ _ acts).mono works
  | crc value => cases kind <;> exact (setCrc_refines value _ _ acts).mono works
  | size value => cases kind <;> exact (setSize_refines value _ _ acts).mono works
  | deviceId value => cases kind <;> exact (setDeviceId_refines value _ _ acts).mono works

theorem blank_bytes_of_lt {arrays : Arrays} {r : Ref} (below : r < arrays.next) :
    (PacketObject.blank arrays : Receiver kind).arrays.bytes r = arrays.bytes r := by
  rw [PacketObject.blank, Arrays.allocate_bytes_of_lt _ (Nat.lt_succ_of_lt below),
    Arrays.allocate_bytes_of_lt _ below]

/-- A new object has two new arrays. -/
theorem blank_acts (kind : PacketKind) (arrays : Arrays) :
    Acts (arrays.next ≤ ·) (PacketObject.blank arrays : Receiver kind) arrays.next (PacketObject.blank arrays)
      {} where
  shows := by
    have data : (PacketObject.blank arrays : Receiver kind).arrays.bytes arrays.next = List.replicate 5 0 := by
      rw [PacketObject.blank, Arrays.allocate_bytes_of_lt _ (Nat.lt_succ_self _), Arrays.allocate_bytes_next]
    have frame : (PacketObject.blank arrays : Receiver kind).arrays.bytes (arrays.next + 1) = List.replicate 8 0 :=
      Arrays.allocate_bytes_next _
    exact congrArg₂ (fun data frame => (⟨0, 0, 0, 0, data, { data := frame }⟩ : Packet kind)) data frame
  data := rfl
  frame := rfl
  mine := Nat.le_succ _
  apart := Nat.ne_of_lt (Nat.lt_succ_self _)
  kept := fun _ _ => rfl
  full := congrArg List.length (Arrays.allocate_bytes_next _)
  next := rfl

/-- What a constructor comes to, on references and on values. -/
theorem construct_agree (kind : PacketKind) (arrays : Arrays) {making : Making Ref}
    (present : ∀ r, making.array? = some r → r < arrays.next) :
    ∃ (t : Receiver kind) (p : Packet kind),
      Worked (arrays.next ≤ ·) (PacketObject.blank arrays) making.array? t p ∧
      (PacketObject.construct (making.body kind) arrays = (.ok t.this, t.arrays) ∧
          (making.map arrays.bytes).origin.build kind = .ok p ∨
        ∃ e, PacketObject.construct (making.body kind) arrays = (.error e, t.arrays) ∧
          (making.map arrays.bytes).origin.build kind = .error e) := by
  obtain ⟨body, built, agree⟩ := making_agree (blank_acts kind arrays) (Nat.le_refl _) fun r given =>
    Nat.not_le_of_lt (present r given)
  rw [Making.map_congr fun r given => blank_bytes_of_lt (present r given)] at built
  cases left : making.body kind (PacketObject.blank arrays) <;> cases right : body {} <;> rw [left, right] at agree
  case ok.ok a t b p =>
    refine ⟨t, p, agree.2, .inl ⟨by rw [PacketObject.construct, left], ?_⟩⟩
    rw [built, Packet.construct_of_ok right]
  case error.error e t f p =>
    obtain ⟨rfl, worked⟩ := agree
    refine ⟨t, p, worked, .inr ⟨e, by rw [PacketObject.construct, left], ?_⟩⟩
    rw [built, Packet.construct_of_error right]
  all_goals exact agree.elim

theorem Agree.after {σ τ α : Type} {related : σ → τ → Prop} {concrete : Method σ α} {abstract : Method τ α}
    {s : σ}
    {t : τ} (agree : (concrete s).Agree related (abstract t)) : related (concrete.after s) (abstract.after t) := by
  rw [Method.after, Method.after]
  cases left : concrete s <;> cases right : abstract t <;> rw [left, right] at agree
  case ok.ok => exact agree.2
  case error.error => exact agree.2
  all_goals exact agree.elim

end OtaCli.Proofs.PacketBodies
