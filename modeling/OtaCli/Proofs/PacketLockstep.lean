import OtaCli.Proofs.ResponseInvariant

/-! # The two packet classes side by side

A command and a response built from the same arguments and assigned to alike. They go together as
long as every array has five bytes or is refused by both: a command pads a shorter one with zeros,
which a response does not take, and only the constructor of a response takes a longer one.
-/

namespace OtaCli.Proofs.PacketLockstep

open Model Model.PacketFields LabeledMachine

/-- The same assignment on a command and a response, each of whose exceptions is caught. -/
def lockstep : LabeledMachine (CommandPacket × ResponsePacket) Assignment :=
  (Packet.caught .command).within (Packet.caught .response) some

/-- Both assignments throw, or both return. -/
def Together (_ : List Assignment) (pair : CommandPacket × ResponsePacket) (a : Assignment) : Prop :=
  (Packet.assign .command a).Throws pair.1 ↔ (Packet.assign .response a).Throws pair.2

/-- Neither assignment throws. -/
def Returning (_ : List Assignment) (pair : CommandPacket × ResponsePacket) (a : Assignment) : Prop :=
  ¬ (Packet.assign .command a).Throws pair.1 ∧ ¬ (Packet.assign .response a).Throws pair.2

/-- Through the history both throw or both return, and while neither has thrown the images agree. -/
structure GoTogether (pair : CommandPacket × ResponsePacket) (history : List Assignment) : Prop where
  throws : lockstep.Along pair history Together
  images : ∀ before c r, before <+: history → lockstep.Run pair before (c, r) →
    lockstep.Along pair before Returning → c.mappedMsg.data = r.mappedMsg.data

/-- From the constructors on. -/
def Agree (cmd crc size deviceId : UInt8) (data : Option (List UInt8)) (history : List Assignment) :
    Prop :=
  ((∃ e, CommandPacket.ofFields cmd crc size deviceId data = .error e) ↔
    ∃ e, ResponsePacket.ofFields cmd crc size deviceId data = .error e) ∧
  ∀ c r, CommandPacket.ofFields cmd crc size deviceId data = .ok c →
    ResponsePacket.ofFields cmd crc size deviceId data = .ok r → GoTogether (c, r) history

/-- With full arrays both objects keep the same fields. -/
theorem fields_of_run {f : PacketFields} {history : List Assignment} (full : ∀ a ∈ history, a.Full)
    {c : CommandPacket} {r : ResponsePacket}
    (run : lockstep.Run (f.toPacket .command, f.toPacket .response) history (c, r)) :
    ∃ g : PacketFields, c = g.toPacket .command ∧ r = g.toPacket .response := by
  obtain ⟨command, response⟩ := within_run_iff.mp run
  rw [List.filterMap_some] at command
  exact ⟨_, Packet.fields_of_caught_run (fun _ => full) command,
    Packet.fields_of_caught_run (fun _ => full) response⟩

private theorem goTogether_of_full (f : PacketFields) {history : List Assignment}
    (full : ∀ a ∈ history, a.Full) :
    GoTogether (f.toPacket .command, f.toPacket .response) history := by
  constructor
  · rintro before ⟨c, r⟩ a within run
    obtain ⟨g, rfl, rfl⟩ := fields_of_run
      (fun b member => full b (within.subset (List.mem_append_left _ member))) run
    have last : a.Full := full a (within.subset (by simp))
    exact (Packet.throws_iff (fun _ => last) g).trans (Packet.throws_iff (fun _ => last) g).symm
  · intro before c r within run _
    obtain ⟨g, rfl, rfl⟩ := fields_of_run (fun b member => full b (within.subset member)) run
    rfl

/-- A shorter array makes the response throw and not the command. -/
private theorem full_of_together {f : PacketFields} {history : List Assignment}
    (together : lockstep.Along (f.toPacket .command, f.toPacket .response) history Together) :
    ∀ a ∈ history, a.Full := by
  induction history using List.reverseRecOn with
  | nil => simp
  | append_singleton before a ih =>
    have earlier := ih (together.restrict (List.prefix_append _ _))
    obtain ⟨c, command⟩ := Packet.exists_caught_run (f.toPacket .command) before
    obtain ⟨r, response⟩ := Packet.exists_caught_run (f.toPacket .response) before
    have run : lockstep.Run (f.toPacket .command, f.toPacket .response) before (c, r) :=
      within_run_iff.mpr ⟨by rwa [List.filterMap_some], response⟩
    obtain ⟨g, rfl, rfl⟩ := fields_of_run earlier run
    have last := together before _ a List.prefix_rfl run
    have full : a.Full := by
      intro value given
      by_contra few
      have short : value.length < 5 := Nat.lt_of_not_le few
      obtain rfl := Assignment.eq_data_of_array? given
      obtain ⟨after, thrown, -⟩ :=
        ResponsePacket.assign_of_short short (p := g.toPacket .response) (by simp [toPacket])
      have faulty := (Packet.throws_iff (by simp) g).mp (last.mpr ⟨_, after, thrown⟩)
      exact faulty (CommandPacket.fault_data_eq_none_iff.mpr ⟨value, rfl, by omega⟩)
    intro b member
    rcases List.mem_append.mp member with inBefore | isLast
    · exact earlier b inBefore
    · rwa [List.mem_singleton.mp isLast]

section Constructors

variable (cmd crc size deviceId : UInt8) {value : List UInt8} {history : List Assignment}

private theorem agree_of_null : Agree cmd crc size deviceId none history := by
  have command := CommandPacket.ofFields_of_fault cmd crc size deviceId
    (show CommandPacket.fault (.data none) = some .nullReference from rfl)
  refine ⟨iff_of_true ⟨_, command⟩ ⟨.nullReference, rfl⟩, fun c r built => ?_⟩
  rw [command] at built
  cases built

/-- Only the constructor of a command looks for an array that is too long, and only that of a response
fails on one that is too short. -/
theorem length_of_agree (agree : Agree cmd crc size deviceId (some value) history) :
    value.length = 5 := by
  rcases Nat.lt_trichotomy value.length 5 with short | five | long
  · obtain ⟨e, thrown⟩ := agree.1.mpr ⟨_, ResponsePacket.ofFields_of_short cmd crc size deviceId short⟩
    rw [CommandPacket.ofFields_eq cmd crc size deviceId short.le] at thrown
    cases thrown
  · exact five
  · have refused : CommandPacket.fault (.data (some value)) = some (.argumentNull "value") :=
      if_pos long
    obtain ⟨e, thrown⟩ :=
      agree.1.mp ⟨_, CommandPacket.ofFields_of_fault cmd crc size deviceId refused⟩
    rw [ResponsePacket.ofFields_of_le cmd crc size deviceId long.le] at thrown
    cases thrown

private theorem agree_iff_goTogether (value : Vector UInt8 5) :
    Agree cmd crc size deviceId (some value.toList) history ↔
      GoTogether ((⟨cmd, crc, size, deviceId, value⟩ : PacketFields).toPacket .command,
        (⟨cmd, crc, size, deviceId, value⟩ : PacketFields).toPacket .response) history := by
  have command := Packet.ofFields_eq .command cmd crc size deviceId value
  have response := Packet.ofFields_eq .response cmd crc size deviceId value
  simp only [Packet.ofFields] at command response
  simp only [Agree, command, response, reduceCtorEq, exists_false, Except.ok.injEq, true_and]
  constructor
  · exact fun agree => agree _ _ rfl rfl
  · rintro together _ _ rfl rfl
    exact together

end Constructors

/-- The classes agree through a history exactly when both constructors refuse the array because it is
null, or it has five bytes and every array assigned later has at least five. -/
theorem agree_iff (cmd crc size deviceId : UInt8) (data : Option (List UInt8))
    (history : List Assignment) :
    Agree cmd crc size deviceId data history ↔
      data = none ∨ (∃ value, data = some value ∧ value.length = 5) ∧ ∀ a ∈ history, a.Full := by
  cases data with
  | none => exact iff_of_true (agree_of_null cmd crc size deviceId) (.inl rfl)
  | some value =>
    rcases eq_or_ne value.length 5 with five | other
    · obtain ⟨bytes, rfl⟩ := exists_vector five
      rw [agree_iff_goTogether]
      constructor
      · exact fun together => .inr ⟨⟨_, rfl, five⟩, full_of_together together.throws⟩
      · rintro (⟨⟨⟩⟩ | ⟨-, full⟩)
        exact goTogether_of_full _ full
    · refine iff_of_false (fun agree => other (length_of_agree cmd crc size deviceId agree)) ?_
      rintro (⟨⟨⟩⟩ | ⟨⟨_, ⟨⟩, five⟩, -⟩)
      exact other five

/-- Of the four bytes with which a flash begins, only a command can be made. -/
theorem not_agree_on_four_bytes : ¬ Agree 2 0 4 9 (some [8, 0, 0, 0]) [] :=
  fun agree => absurd (length_of_agree 2 0 4 9 agree) (by decide)

end OtaCli.Proofs.PacketLockstep
