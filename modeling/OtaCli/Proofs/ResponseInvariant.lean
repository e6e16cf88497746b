import OtaCli.Model.PacketHistory

/-! # The response packet's cached image

The response class keeps the array it is given, so every later recompilation depends on its length.
An array of five bytes keeps the object in order, and so does one that the setter refuses. A shorter
one is stored before the exception, and from then on no property can be assigned; a longer one passes
the constructor.
-/

namespace OtaCli.Proofs.ResponseInvariant

open Model Model.PacketFields LabeledMachine

/-- An object in order: the image shows the values of the getters, the array padded with zeros, and
the byte properties can be assigned. -/
structure Sound (p : ResponsePacket) : Prop where
  short : p.data.length ≤ 5
  image : p.mappedMsg.data =
    p.cmd :: UInt8.ofNat (p.crc.toNat % 32 + 32 * (p.size.toNat % 8)) :: p.deviceId ::
      (p.data ++ List.replicate (5 - p.data.length) 0)
  assignable : ∀ a, (∀ value, a ≠ .data value) → ¬ (Packet.assign .response a).Throws p

/-- An assignment that throws leaves the object as it was. -/
def Atomic (p : ResponsePacket) (a : Assignment) : Prop :=
  (Packet.assign .response a).Throws p → (Packet.assign .response a).after p = p

/-- The object stays in order through a history of assignments whose exceptions are caught, and
every assignment of it is atomic. -/
def InOrder (p : ResponsePacket) (history : List Assignment) : Prop :=
  ∀ before q, before <+: history → (Packet.caught .response).Run p before q →
    Sound q ∧ ∀ a, before ++ [a] <+: history → Atomic q a

private theorem sound_toPacket (f : PacketFields) : Sound (f.toPacket .response) := by
  refine ⟨by simp [toPacket], ?_, ?_⟩
  · rw [← packCrcSize_toNat, UInt8.ofNat_toNat]
    simpa [toPacket] using wire_toList f
  · intro a other
    have full : a.Full := by
      cases a with
      | data value => exact absurd rfl (other value)
      | _ =>
        intro value absent
        cases absent
    rw [Packet.throws_iff (fun _ => full) f, not_not]
    cases a with
    | data value => exact absurd rfl (other value)
    | _ => rfl

theorem Sound.mapped {p : ResponsePacket} (sound : Sound p) : p.mappedMsg.data.length = 8 := by
  have short := sound.short
  rw [sound.image]
  simp only [List.length_cons, List.length_append, List.length_replicate]
  omega

/-- An object in order has a full array, or the setter of `Cmd` would throw. -/
theorem Sound.full {p : ResponsePacket} (sound : Sound p) : p.data.length = 5 := by
  by_contra other
  have short : p.data.length < 5 := Nat.lt_of_le_of_ne sound.short other
  exact sound.assignable (.cmd 0) (by simp)
    (ResponsePacket.assignField_of_short short sound.mapped rfl rfl)

private theorem atomic_of_full {a : Assignment} (full : a.Full) (f : PacketFields) :
    Atomic (f.toPacket .response) a := by
  intro throws
  obtain ⟨e, faulty⟩ := Option.ne_none_iff_exists'.mp ((Packet.throws_iff (fun _ => full) f).mp throws)
  exact Method.after_of_error (Packet.assign_of_fault faulty _)

/-- A history in order gives no array of fewer than five bytes: it would be kept, and its owner would
no longer be an object in order. -/
theorem full_of_inOrder {p : ResponsePacket} {history : List Assignment}
    (ordered : InOrder p history) : ∀ a ∈ history, a.Full := by
  intro a member value given
  by_contra few
  have short : value.length < 5 := Nat.lt_of_not_le few
  obtain ⟨before, rest, rfl⟩ := List.append_of_mem member
  obtain ⟨q, run⟩ := Packet.exists_caught_run p before
  obtain ⟨sound, atomic⟩ := ordered before q (List.prefix_append _ _) run
  obtain rfl := Assignment.eq_data_of_array? given
  obtain ⟨after, thrown, kept⟩ := ResponsePacket.assign_of_short short sound.mapped
  have same : after = q := by
    rw [← atomic (.data (some value)) ⟨rest, by simp⟩ ⟨_, _, thrown⟩]
    exact (Method.after_of_error thrown).symm
  have full := sound.full
  rw [← same, kept] at full
  omega

/-- A response stays in order through a history exactly when the constructor was given no more than
five bytes and every array assigned has at least five. -/
theorem inOrder_iff {origin : Origin} {p : ResponsePacket} (built : origin.build .response = .ok p)
    (history : List Assignment) :
    InOrder p history ↔
      (∀ value, origin.array? = some value → value.length ≤ 5) ∧ ∀ a ∈ history, a.Full := by
  constructor
  · intro ordered
    refine ⟨fun value given => ?_, full_of_inOrder ordered⟩
    rw [← ResponsePacket.data_of_build built given]
    exact (ordered [] p List.nil_prefix (.refl p)).1.short
  · rintro ⟨fits, full⟩ before q within run
    obtain ⟨f, rfl⟩ := ResponsePacket.exists_fields_of_build built fits
    obtain rfl := Packet.fields_of_caught_run (fun _ a member => full a (within.subset member)) run
    exact ⟨sound_toPacket _, fun a further => atomic_of_full (full a (further.subset (by simp))) _⟩

theorem inOrder_of_five_bytes :
    InOrder (blank.toPacket .response) [.data (some [1, 2, 3, 4, 5]), .data none, .cmd 7] := by
  have built : Origin.create.build .response = .ok (blank.toPacket .response) := Packet.create_eq
  exact (inOrder_iff built _).mpr ⟨by simp, by simp [Assignment.Full]⟩

/-- Assigning four bytes to a new response throws, and the array is kept. -/
theorem not_inOrder_of_four_bytes :
    ∃ p, Origin.create.build .response = .ok p ∧ ¬ InOrder p [.data (some [1, 2, 3, 4])] := by
  refine ⟨_, Packet.create_eq, fun ordered => ?_⟩
  have full := full_of_inOrder ordered _ (List.mem_singleton.mpr rfl) [1, 2, 3, 4] rfl
  exact absurd full (by decide)

end OtaCli.Proofs.ResponseInvariant
