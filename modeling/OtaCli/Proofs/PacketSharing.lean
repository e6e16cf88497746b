import OtaCli.Proofs.PacketBodies

/-! # Sharing of arrays between packets and their makers

Code that gives an array to a packet may write to it afterwards. A command has copied the array and does not
notice; a response has kept the reference and does, in its data but not in its wire image. The invariant says which
arrays can be shared at all: those of the code's own that several responses keep.
-/

namespace OtaCli.Proofs.PacketSharing

open Model LabeledMachine EStateM PacketBodies

variable {kind : PacketKind}

section Values

variable {exact : ℕ → Prop} {u v w : PacketValues}

/-- The same arrays, packets of the same classes, and the same packets where these are to be exact. -/
structure Matches (exact : ℕ → Prop) (u v : PacketValues) : Prop where
  arrays : v.arrays = u.arrays
  kinds : v.packets.map Sigma.fst = u.packets.map Sigma.fst
  packets : ∀ k, exact k → v.packets[k]? = u.packets[k]?

theorem Matches.refl (u : PacketValues) : Matches exact u u := ⟨rfl, rfl, fun _ _ => rfl⟩

theorem Matches.mono {fewer : ℕ → Prop} (same : Matches exact u v) (implies : ∀ k, fewer k → exact k) :
    Matches fewer u v := ⟨same.arrays, same.kinds, fun k here => same.packets k (implies k here)⟩

theorem Matches.trans (left : Matches exact u v) (right : Matches exact v w) : Matches exact u w :=
  ⟨right.arrays.trans left.arrays, right.kinds.trans left.kinds,
    fun k here => (right.packets k here).trans (left.packets k here)⟩

theorem Matches.length (same : Matches exact u v) : v.packets.length = u.packets.length := by
  simpa using congrArg List.length same.kinds

theorem Matches.at (same : Matches exact u v) {k : ℕ} {p : Packet kind}
    (present : u.packets[k]? = some ⟨kind, p⟩) :
    ∃ other : Packet kind, v.packets[k]? = some ⟨kind, other⟩ := by
  have kindAt : (v.packets.map Sigma.fst)[k]? = some kind := by
    rw [same.kinds, List.getElem?_map, present, Option.map_some]
  rw [List.getElem?_map] at kindAt
  obtain ⟨⟨kind', other⟩, inPlace, sameKind⟩ := Option.map_eq_some_iff.mp kindAt
  cases sameKind
  exact ⟨other, inPlace⟩

/-- Where arrays are values, no packet has to do with another. -/
theorem Matches.step (same : Matches exact u v) {action : PacketAction} {u' : PacketValues}
    (stepped : PacketValues.machine.step u action = some u') :
    ∃ v', PacketValues.machine.step v action = some v' ∧ Matches exact u' v' := by
  have ⟨arrays, kinds, packets⟩ := same
  cases action with
  | allocate bytes =>
    obtain rfl := Option.some.inj stepped
    exact ⟨_, rfl, congrArg (· ++ [bytes]) arrays, kinds, packets⟩
  | write array index value =>
    obtain ⟨bytes, found, -⟩ := Option.bind_eq_some_iff.mp stepped
    rw [PacketValues.step_write found] at stepped
    rw [PacketValues.step_write (arrays ▸ found)]
    cases assigned : assignElement bytes index value with
    | error e =>
      rw [assigned] at stepped
      obtain rfl := Option.some.inj stepped
      exact ⟨_, rfl, arrays, kinds, packets⟩
    | ok after =>
      rw [assigned] at stepped
      obtain rfl := Option.some.inj stepped
      exact ⟨_, rfl, congrArg (List.set · array after) arrays, kinds, packets⟩
  | make kind making =>
    obtain ⟨found, resolved, -⟩ := Option.bind_eq_some_iff.mp stepped
    rw [PacketValues.step_make resolved] at stepped
    rw [PacketValues.step_make (arrays ▸ resolved)]
    cases built : found.origin.build kind with
    | error e =>
      rw [built] at stepped
      obtain rfl := Option.some.inj stepped
      exact ⟨_, rfl, arrays, kinds, packets⟩
    | ok made =>
      rw [built] at stepped
      obtain rfl := Option.some.inj stepped
      refine ⟨_, rfl, arrays, by simp only [List.map_append, kinds], fun k here => ?_⟩
      rw [List.getElem?_append, List.getElem?_append, same.length, packets k here]
  | assign packet setting =>
    obtain ⟨⟨kind, this⟩, present, found⟩ := Option.bind_eq_some_iff.mp stepped
    obtain ⟨found, resolved, -⟩ := Option.bind_eq_some_iff.mp found
    rw [PacketValues.step_assign present resolved] at stepped
    obtain rfl := Option.some.inj stepped
    obtain ⟨other, inPlace⟩ := same.at present
    rw [PacketValues.step_assign inPlace (arrays ▸ resolved)]
    refine ⟨_, rfl, arrays, by simp only [List.map_set, kinds], fun k here => ?_⟩
    by_cases same : k = packet
    · subst same
      have equal := (packets k here).symm.trans inPlace
      rw [present, Option.some.injEq] at equal
      obtain rfl := eq_of_heq (Sigma.mk.inj equal).2
      simp only [List.getElem?_set_self', packets k here]
    · rw [List.getElem?_set_ne (Ne.symm same), List.getElem?_set_ne (Ne.symm same), packets k here]

end Values

section Code

variable {s next : PacketHeap} {tape : List PacketAction}

/-- The arrays of an object, among those that there are and those that the code has variables for. -/
structure Kept (arrays : Arrays) (outside : List Ref) (o : PacketObject kind) : Prop where
  data : o.data < arrays.next
  frame : o.mappedMsg.data < arrays.next
  apart : o.data ≠ o.mappedMsg.data
  full : (arrays.bytes o.mappedMsg.data).length = 8
  hidden : o.mappedMsg.data ∉ outside
  own : kind = .command → o.data ∉ outside

/-- No array serves two objects, unless it is one of the code's that both keep. -/
def Apart {kind' : PacketKind} (outside : List Ref) (o : PacketObject kind) (o' : PacketObject kind') : Prop :=
  o.mappedMsg.data ≠ o'.mappedMsg.data ∧ o.mappedMsg.data ≠ o'.data ∧ (o.data = o'.data → o.data ∈ outside)

structure Owned (s : PacketHeap) : Prop where
  outside : ∀ r ∈ s.outside, r < s.arrays.next
  nodup : s.outside.Nodup
  kept : ∀ o ∈ s.packets, Kept s.arrays s.outside o.2
  apart : ∀ (i j : ℕ) (o o' : Σ kind, PacketObject kind), s.packets[i]? = some o → s.packets[j]? = some o' →
    i ≠ j → Apart s.outside o.2 o'.2

/-- The variables show the same when what they refer to is the same. -/
private theorem values_eq {arrays : Arrays} (outside : ∀ r ∈ s.outside, arrays.bytes r = s.arrays.bytes r)
    (packets : ∀ o ∈ s.packets, arrays.bytes o.2.data = s.arrays.bytes o.2.data ∧
      arrays.bytes o.2.mappedMsg.data = s.arrays.bytes o.2.mappedMsg.data) :
    ({ s with arrays := arrays } : PacketHeap).values = s.values := by
  rw [PacketHeap.values, PacketHeap.values, PacketValues.mk.injEq]
  refine ⟨List.map_congr_left outside, List.map_congr_left fun o member => ?_⟩
  obtain ⟨data, frame⟩ := packets o member
  simp only [PacketObject.value, CanMsgObject.value, data, frame]

theorem Kept.mono {arrays arrays' : Arrays} {outside outside' : List Ref} {o : PacketObject kind}
    (kept : Kept arrays outside o) (larger : arrays.next ≤ arrays'.next)
    (same : arrays'.bytes o.mappedMsg.data = arrays.bytes o.mappedMsg.data)
    (new : ∀ r ∈ outside', r ∈ outside ∨ arrays.next ≤ r) : Kept arrays' outside' o where
  data := Nat.lt_of_lt_of_le kept.data larger
  frame := Nat.lt_of_lt_of_le kept.frame larger
  apart := kept.apart
  full := by rw [same, kept.full]
  hidden member := (new _ member).elim kept.hidden (Nat.not_le_of_lt kept.frame)
  own command member := (new _ member).elim (kept.own command) (Nat.not_le_of_lt kept.data)

/-- New arrays change nothing that was there. -/
theorem Owned.extend (owned : Owned s) {arrays : Arrays} (larger : s.arrays.next ≤ arrays.next)
    (same : ∀ r < s.arrays.next, arrays.bytes r = s.arrays.bytes r) :
    Owned { s with arrays := arrays } ∧ ({ s with arrays := arrays } : PacketHeap).values = s.values := by
  refine ⟨⟨?_, owned.nodup, ?_, owned.apart⟩, ?_⟩
  · exact fun r member => Nat.lt_of_lt_of_le (owned.outside r member) larger
  · intro o member
    exact (owned.kept o member).mono larger (same _ (owned.kept o member).frame) fun r present => .inl present
  · refine values_eq (fun r member => same r (owned.outside r member)) fun o member => ?_
    exact ⟨same _ (owned.kept o member).data, same _ (owned.kept o member).frame⟩

theorem Owned.allocate (owned : Owned s) {bytes : List UInt8}
    (stepped : PacketHeap.machine.step s (.allocate bytes) = some next) :
    Owned next ∧ PacketValues.machine.step s.values (.allocate bytes) = some next.values := by
  obtain rfl := Option.some.inj stepped
  have old (r : Ref) (present : r < s.arrays.next) : (s.arrays.allocate bytes).bytes r = s.arrays.bytes r :=
    s.arrays.allocate_bytes_of_lt present
  obtain ⟨-, same⟩ := owned.extend (Nat.le_succ _) old
  refine ⟨⟨?_, ?_, ?_, ?_⟩, ?_⟩
  · intro r member
    rcases List.mem_append.mp member with earlier | last
    · exact Nat.lt_succ_of_lt (owned.outside r earlier)
    · rw [List.mem_singleton.mp last]
      exact Nat.lt_succ_self _
  · refine List.nodup_append.mpr ⟨owned.nodup, List.nodup_singleton _, ?_⟩
    rintro r member _ last rfl
    exact Nat.lt_irrefl _ (List.mem_singleton.mp last ▸ owned.outside r member)
  · intro o member
    refine (owned.kept o member).mono (Nat.le_succ _) (old _ (owned.kept o member).frame) fun r present => ?_
    rcases List.mem_append.mp present with earlier | last
    · exact .inl earlier
    · exact .inr (List.mem_singleton.mp last).ge
  · intro i j o o' here there other
    obtain ⟨frames, frame, data⟩ := owned.apart i j o o' here there other
    exact ⟨frames, frame, fun same => List.mem_append_left _ (data same)⟩
  · rw [← same]
    simp [PacketValues.machine, PacketHeap.values]

/-- A new object, with arrays that serve no other. -/
theorem Owned.add (owned : Owned s) {o : PacketObject kind} (kept : Kept s.arrays s.outside o)
    (apart : ∀ o' ∈ s.packets, Apart s.outside o'.2 o ∧ Apart s.outside o o'.2) :
    Owned { s with packets := s.packets ++ [⟨kind, o⟩] } := by
  refine ⟨owned.outside, owned.nodup, ?_, ?_⟩
  · intro o' member
    rcases List.mem_append.mp member with earlier | last
    · exact owned.kept o' earlier
    · rw [List.mem_singleton.mp last]
      exact kept
  · intro i j o₁ o₂ here there other
    have found {i : ℕ} {o' : Σ kind, PacketObject kind} (at_i : (s.packets ++ [⟨kind, o⟩])[i]? = some o') :
        s.packets[i]? = some o' ∨ i = s.packets.length ∧ o' = ⟨kind, o⟩ := by
      rw [List.getElem?_append] at at_i
      split at at_i
      · exact .inl at_i
      · rw [List.getElem?_singleton, Option.ite_none_right_eq_some, Option.some.injEq] at at_i
        exact .inr ⟨by omega, at_i.2.symm⟩
    rcases found here with here | ⟨rfl, rfl⟩ <;> rcases found there with there | ⟨rfl, rfl⟩
    · exact owned.apart i j o₁ o₂ here there other
    · exact (apart o₁ (List.mem_of_getElem? here)).1
    · exact (apart o₂ (List.mem_of_getElem? there)).2
    · exact absurd rfl other

private theorem getElem?_set_cases {α : Type*} {l : List α} {k i : ℕ} {a b : α}
    (found : (l.set k a)[i]? = some b) : i ≠ k ∧ l[i]? = some b ∨ i = k ∧ b = a := by
  rw [List.getElem?_set] at found
  split at found
  · next same =>
    rw [Option.ite_none_right_eq_some, Option.some.injEq] at found
    exact .inr ⟨same.symm, found.2.symm⟩
  · next apart => exact .inl ⟨Ne.symm apart, found⟩

/-- An object in the place of what it was, where only its own arrays have changed. -/
theorem Owned.replace (owned : Owned s) {arrays : Arrays} {k : ℕ} {o : PacketObject kind}
    (same : arrays.next = s.arrays.next) (kept : Kept arrays s.outside o)
    (others : ∀ (j : ℕ) (o' : Σ kind, PacketObject kind), s.packets[j]? = some o' → j ≠ k →
      arrays.bytes o'.2.mappedMsg.data = s.arrays.bytes o'.2.mappedMsg.data ∧
        Apart s.outside o'.2 o ∧ Apart s.outside o o'.2) :
    Owned { s with arrays := arrays, packets := s.packets.set k ⟨kind, o⟩ } := by
  refine ⟨by rw [same]; exact owned.outside, owned.nodup, ?_, ?_⟩
  · intro o' member
    obtain ⟨j, found⟩ := List.mem_iff_getElem?.mp member
    obtain ⟨apart, found⟩ | ⟨-, rfl⟩ := getElem?_set_cases found
    · exact (owned.kept o' (List.mem_of_getElem? found)).mono same.ge (others j o' found apart).1 fun r => .inl
    · exact kept
  · intro i j o₁ o₂ here there other
    rcases getElem?_set_cases here with ⟨apart_i, first⟩ | ⟨same_i, rfl⟩ <;>
      rcases getElem?_set_cases there with ⟨apart_j, second⟩ | ⟨same_j, rfl⟩
    · exact owned.apart i j o₁ o₂ first second other
    · exact (others i o₁ first apart_i).2.1
    · exact (others j o₂ second apart_j).2.2
    · exact absurd (same_i.trans same_j.symm) other

/-- The action changes no array that packet `k` has kept from the code: it writes to none, or what was there. -/
def Leaves (k : ℕ) (_ : List PacketAction) (s : PacketHeap) (action : PacketAction) : Prop :=
  ∀ array index value r bytes (o : ResponseObject), action = .write array index value →
    s.outside[array]? = some r → s.packets[k]? = some ⟨.response, o⟩ → o.data = r →
    assignElement (s.arrays.bytes r) index value = .ok bytes → bytes = s.arrays.bytes r

theorem Owned.write (owned : Owned s) {array index : ℕ} {value : UInt8}
    (stepped : PacketHeap.machine.step s (.write array index value) = some next) :
    Owned next ∧ ∃ u, PacketValues.machine.step s.values (.write array index value) = some u ∧
      Matches (fun k => Leaves k tape s (.write array index value)) next.values u := by
  obtain ⟨r, found, -⟩ := Option.bind_eq_some_iff.mp stepped
  rw [PacketHeap.step_write found] at stepped
  have shown : s.values.arrays[array]? = some (s.arrays.bytes r) := by simp [found]
  have present : r ∈ s.outside := List.mem_of_getElem? found
  rw [PacketValues.step_write shown]
  cases assigned : assignElement (s.arrays.bytes r) index value with
  | error e =>
    rw [assigned] at stepped
    obtain rfl := Option.some.inj stepped
    exact ⟨owned, _, rfl, .refl _⟩
  | ok bytes =>
    rw [assigned] at stepped
    obtain rfl := Option.some.inj stepped
    have old {o : Σ kind, PacketObject kind} (member : o ∈ s.packets) :
        (s.arrays.store r bytes).bytes o.2.mappedMsg.data = s.arrays.bytes o.2.mappedMsg.data :=
      s.arrays.store_bytes_of_ne fun same => (owned.kept o member).hidden (same ▸ present)
    refine ⟨⟨owned.outside, owned.nodup, ?_, owned.apart⟩, _, rfl, ?_, ?_, ?_⟩
    · exact fun o member => (owned.kept o member).mono le_rfl (old member) fun r present => .inl present
    · obtain ⟨inside, rfl⟩ := List.getElem?_eq_some_iff.mp found
      simp only [PacketHeap.values_arrays]
      rw [Arrays.store, owned.nodup.map_update, if_pos present, owned.nodup.idxOf_getElem]
    · simp only [PacketHeap.values_packets, List.map_map, Function.comp_def]
    · intro k leaves
      simp only [PacketHeap.values_packets, List.getElem?_map]
      cases at_k : s.packets[k]? with
      | none => rfl
      | some o =>
        have member := List.mem_of_getElem? at_k
        have data : (s.arrays.store r bytes).bytes o.2.data = s.arrays.bytes o.2.data := by
          by_cases holds : o.2.data = r
          · obtain ⟨kind, o⟩ := o
            cases kind with
            | command => exact absurd (holds ▸ present) ((owned.kept _ member).own rfl)
            | response =>
              rw [holds, Arrays.store_bytes_self]
              exact leaves array index value r bytes o rfl found at_k holds assigned
          · exact s.arrays.store_bytes_of_ne holds
        simp only [Option.map_some, PacketObject.value, CanMsgObject.value, old member, data]

section Methods

variable {outside : List Ref} {own : Ref → Prop} {base t : Receiver kind} {array : Ref} {p : Packet kind}

/-- What a method leaves of its object: where the data array is another one now, it is one of the code's. -/
theorem kept_of_acts (acts : Acts own base array t p) (mine : Kept base.arrays outside base.this)
    (inside : ∀ r ∈ outside, r < base.arrays.next)
    (placed : array = base.this.data ∨ kind = .response ∧ array ∈ outside) : Kept t.arrays outside t.this where
  data := by
    rw [acts.data, acts.next]
    rcases placed with rfl | ⟨-, given⟩
    · exact mine.data
    · exact inside array given
  frame := by
    rw [acts.frame, acts.next]
    exact mine.frame
  apart := by
    rw [acts.data, acts.frame]
    exact acts.apart
  full := by
    rw [acts.frame]
    exact acts.full
  hidden := by
    rw [acts.frame]
    exact mine.hidden
  own := by
    rw [acts.data]
    rintro rfl
    obtain rfl | ⟨⟨⟩, -⟩ := placed
    exact mine.own rfl

theorem apart_of_acts (acts : Acts own base array t p) {kind' : PacketKind} {o : PacketObject kind'}
    (apart : Apart outside base.this o ∧ Apart outside o base.this) (hidden : o.mappedMsg.data ∉ outside)
    (placed : array = base.this.data ∨ kind = .response ∧ array ∈ outside) :
    Apart outside t.this o ∧ Apart outside o t.this := by
  obtain ⟨⟨frames, unframed, shared⟩, -, unframed', -⟩ := apart
  rw [Apart, Apart, acts.data, acts.frame]
  have shares (same : array = o.data) : array ∈ outside := by
    rcases placed with rfl | ⟨-, given⟩
    · exact shared same
    · exact given
  refine ⟨⟨frames, unframed, shares⟩, frames.symm, ?_, fun same => same ▸ shares same.symm⟩
  rcases placed with rfl | ⟨-, given⟩
  · exact unframed'
  · exact fun same => hidden (same ▸ given)

/-- The arrays of a new object are apart from all that were there. -/
private theorem blank_kept (kind : PacketKind) {arrays : Arrays} (inside : ∀ r ∈ outside, r < arrays.next) :
    Kept (PacketObject.blank arrays : Receiver kind).arrays outside
      (PacketObject.blank arrays : Receiver kind).this where
  data := Nat.lt_succ_of_lt (Nat.lt_succ_self _)
  frame := Nat.lt_succ_self _
  apart := Nat.ne_of_lt (Nat.lt_succ_self _)
  full := (blank_acts kind arrays).full
  hidden member := Nat.not_succ_lt_self (inside _ member)
  own _ member := Nat.lt_irrefl _ (inside _ member)

private theorem blank_apart (kind : PacketKind) {arrays : Arrays} {kind' : PacketKind} {o : PacketObject kind'}
    (kept : Kept arrays outside o) :
    Apart outside (PacketObject.blank arrays : Receiver kind).this o ∧
      Apart outside o (PacketObject.blank arrays : Receiver kind).this := by
  have new {r : Ref} (below : r < arrays.next) : arrays.next ≠ r ∧ arrays.next + 1 ≠ r :=
    ⟨Nat.ne_of_gt below, Nat.ne_of_gt (Nat.lt_succ_of_lt below)⟩
  obtain ⟨data, data'⟩ := new kept.data
  obtain ⟨frame, frame'⟩ := new kept.frame
  exact ⟨⟨frame', data', fun same => absurd same data⟩, frame'.symm, frame.symm,
    fun same => absurd same.symm data⟩

end Methods

theorem Owned.make (owned : Owned s) {making : Making ℕ}
    (stepped : PacketHeap.machine.step s (.make kind making) = some next) :
    Owned next ∧ PacketValues.machine.step s.values (.make kind making) = some next.values := by
  obtain ⟨found, resolved, -⟩ := Option.bind_eq_some_iff.mp stepped
  have shown : making.resolve (s.values.arrays[·]?) = some (found.map s.arrays.bytes) := by
    rw [PacketHeap.values_arrays, Making.resolve_map, resolved, Option.map_some]
  have present (r : Ref) (given : found.array? = some r) : r ∈ s.outside := Making.mem_of_resolve resolved given
  obtain ⟨t, p, ⟨array, keeps, acts⟩, comes⟩ := construct_agree kind s.arrays fun r given =>
    owned.outside r (present r given)
  obtain ⟨extended, same⟩ := owned.extend (acts.next ▸ Nat.le_add_right _ 2) fun r below =>
    (acts.kept r (Nat.not_le_of_lt below)).trans (blank_bytes_of_lt below)
  rw [PacketHeap.step_make resolved] at stepped
  rw [PacketValues.step_make shown]
  rcases comes with ⟨made, built⟩ | ⟨e, made, built⟩ <;>
    rw [made, Option.some.injEq] at stepped <;> subst stepped
  · have placed := keeps.imp_right fun ⟨response, given⟩ => And.intro response (present array given)
    have within (r : Ref) (member : r ∈ s.outside) : r < (PacketObject.blank s.arrays : Receiver kind).arrays.next :=
      Nat.lt_succ_of_lt (Nat.lt_succ_of_lt (owned.outside r member))
    refine ⟨extended.add (kept_of_acts acts (blank_kept kind owned.outside) within placed) fun o' member => ?_, ?_⟩
    · have kept := owned.kept o' member
      exact (apart_of_acts acts (blank_apart kind kept) kept.hidden placed).symm
    · have earlier := congrArg PacketValues.packets same
      simp only [PacketHeap.values_packets] at earlier
      rw [built]
      refine congrArg some (PacketValues.ext (congrArg PacketValues.arrays same).symm ?_)
      simp only [PacketHeap.values_packets, List.map_append, List.map_cons, List.map_nil, earlier, acts.shows]
  · rw [built]
    exact ⟨extended, congrArg some same.symm⟩

/-- What an assignment to an object may write to: the wire image, and the data array of a command. -/
def Writable (o : PacketObject kind) (r : Ref) : Prop := r = o.mappedMsg.data ∨ kind = .command ∧ r = o.data

theorem Kept.not_writable {arrays : Arrays} {outside : List Ref} {o : PacketObject kind}
    (kept : Kept arrays outside o) {r : Ref} (member : r ∈ outside) : ¬ Writable o r := by
  rintro (rfl | ⟨command, rfl⟩)
  · exact kept.hidden member
  · exact kept.own command member

/-- The arrays of the other objects are none of these. -/
theorem Apart.not_writable {arrays : Arrays} {outside : List Ref} {o : PacketObject kind} {kind' : PacketKind}
    {o' : PacketObject kind'} (kept : Kept arrays outside o) (apart : Apart outside o o')
    (apart' : Apart outside o' o) :
    ¬ Writable o o'.data ∧ ¬ Writable o o'.mappedMsg.data := by
  obtain ⟨frames, unframed, shared⟩ := apart
  constructor
  · rintro (same | ⟨command, same⟩)
    · exact unframed same.symm
    · exact kept.own command (shared same.symm)
  · rintro (same | ⟨command, same⟩)
    · exact frames same.symm
    · exact apart'.2.1 same

theorem Owned.assign (owned : Owned s) {packet : ℕ} {setting : Setting ℕ}
    (stepped : PacketHeap.machine.step s (.assign packet setting) = some next) :
    Owned next ∧ PacketValues.machine.step s.values (.assign packet setting) = some next.values := by
  obtain ⟨⟨kind, this⟩, present, stepped'⟩ := Option.bind_eq_some_iff.mp stepped
  obtain ⟨found, resolved, -⟩ := Option.bind_eq_some_iff.mp stepped'
  rw [PacketHeap.step_assign present resolved, Option.some.injEq] at stepped
  subst stepped
  have shown : setting.resolve (s.values.arrays[·]?) = some (found.map s.arrays.bytes) := by
    rw [PacketHeap.values_arrays, Setting.resolve_map, resolved, Option.map_some]
  have inPlace : s.values.packets[packet]? = some ⟨kind, this.value s.arrays⟩ := by
    rw [PacketHeap.values_packets, List.getElem?_map, present, Option.map_some]
  have given (r : Ref) (given : found.array? = some r) : r ∈ s.outside := Setting.mem_of_resolve resolved given
  have mine := owned.kept _ (List.mem_of_getElem? present)
  have start : Acts (Writable this) ⟨this, s.arrays⟩ this.data ⟨this, s.arrays⟩ (this.value s.arrays) :=
    ⟨rfl, rfl, rfl, .inl rfl, mine.apart, fun _ _ => rfl, mine.full, rfl⟩
  obtain ⟨array, keeps, acts⟩ := Agree.after (setting_agree start (fun command => .inr ⟨command, rfl⟩)
    fun r named => mine.not_writable (given r named))
  rw [PacketValues.step_assign inPlace shown, ← acts.shows]
  generalize (found.body kind).after ⟨this, s.arrays⟩ = t at acts ⊢
  have placed := keeps.imp_right fun ⟨response, named⟩ => And.intro response (given array named)
  have others (j : ℕ) (o' : Σ kind, PacketObject kind) (at_j : s.packets[j]? = some o') (other : j ≠ packet) :
      (t.arrays.bytes o'.2.data = s.arrays.bytes o'.2.data ∧
        t.arrays.bytes o'.2.mappedMsg.data = s.arrays.bytes o'.2.mappedMsg.data) ∧
      Apart s.outside o'.2 t.this ∧ Apart s.outside t.this o'.2 := by
    have apart := owned.apart packet j _ o' present at_j other.symm
    have apart' := owned.apart j packet o' _ at_j present other
    obtain ⟨data, frame⟩ := Apart.not_writable mine apart apart'
    have hidden := (owned.kept o' (List.mem_of_getElem? at_j)).hidden
    exact ⟨⟨acts.kept _ data, acts.kept _ frame⟩, (apart_of_acts acts ⟨apart, apart'⟩ hidden placed).symm⟩
  refine ⟨owned.replace acts.next (kept_of_acts acts mine owned.outside placed) fun j o' at_j other => ?_, ?_⟩
  · exact ⟨(others j o' at_j other).1.2, (others j o' at_j other).2⟩
  · refine congrArg some (PacketValues.ext (List.map_congr_left fun r member =>
      (acts.kept r (mine.not_writable member)).symm) (List.ext_getElem? fun j => ?_))
    simp only [PacketHeap.values_packets, List.getElem?_map]
    by_cases same : j = packet
    · subst same
      rw [List.getElem?_set_self', List.getElem?_set_self', List.getElem?_map, present]
      rfl
    · rw [List.getElem?_set_ne (Ne.symm same), List.getElem?_set_ne (Ne.symm same), List.getElem?_map]
      cases at_j : s.packets[j]? with
      | none => rfl
      | some o' =>
        obtain ⟨⟨data', frame'⟩, -⟩ := others j o' at_j same
        simp only [Option.map_some, PacketObject.value, CanMsgObject.value, data', frame']

theorem Owned.step (owned : Owned s) (tape : List PacketAction) {action : PacketAction}
    (stepped : PacketHeap.machine.step s action = some next) :
    Owned next ∧ ∃ u, PacketValues.machine.step s.values action = some u ∧
      Matches (fun k => Leaves k tape s action) next.values u := by
  cases action with
  | allocate bytes => exact ⟨(owned.allocate stepped).1, _, (owned.allocate stepped).2, .refl _⟩
  | write array index value => exact owned.write stepped
  | make kind making => exact ⟨(owned.make stepped).1, _, (owned.make stepped).2, .refl _⟩
  | assign packet setting => exact ⟨(owned.assign stepped).1, _, (owned.assign stepped).2, .refl _⟩

/-- The values go along with every run of the code. They are those of the arrays, and of every packet from whose
array the code has kept off. -/
theorem matches_of_run (run : PacketHeap.machine.Run {} tape s) :
    Owned s ∧ ∃ v, PacketValues.machine.Run {} tape v ∧
      Matches (fun k => PacketHeap.machine.Along {} tape (Leaves k)) s.values v := by
  refine run.invariant (I := fun tape s => Owned s ∧ ∃ v, PacketValues.machine.Run {} tape v ∧
    Matches (fun k => PacketHeap.machine.Along {} tape (Leaves k)) s.values v)
    ⟨⟨by simp, List.nodup_nil, by simp, by simp⟩, {}, .refl _, .refl _⟩ ?_
  rintro prior middle action next before ⟨owned, v, path, same⟩ stepped
  obtain ⟨still, u, shown, left⟩ := owned.step prior stepped
  obtain ⟨w, moved, goes⟩ := same.step shown
  refine ⟨still, w, Run.concat_iff.mpr ⟨v, path, moved⟩, (left.mono ?_).trans (goes.mono ?_)⟩
  · exact fun k along => ((Along.concat_iff before).mp along).2
  · exact fun k along => ((Along.concat_iff before).mp along).1

/-- References show what values would. In every run of code that makes arrays and packets, writes to its arrays
and assigns to its packets, its arrays are at every moment what they would be if all were values, and so is a
packet exactly as long as the code changes no array which the packet, being a response, has kept. -/
theorem shows_value_iff (run : PacketHeap.machine.Run {} tape s) (k : ℕ) :
    (∀ prior middle, prior <+: tape → PacketHeap.machine.Run {} prior middle →
      ∃ v, PacketValues.machine.Run {} prior v ∧ v.arrays = middle.values.arrays ∧
        v.packets[k]? = middle.values.packets[k]?) ↔
    PacketHeap.machine.Along {} tape (Leaves k) := by
  constructor
  · intro exact prior middle action within before array index value r bytes o writes found at_k keeps assigned
    subst writes
    obtain ⟨next, stepped⟩ := run.step_within within before
    obtain ⟨v, path, arrays, same⟩ := exact prior middle ((List.prefix_append _ _).trans within) before
    have run := Run.concat_iff.mpr ⟨middle, before, stepped⟩
    obtain ⟨w, last, -, shown⟩ := exact (prior ++ [_]) next within run
    obtain ⟨v', path', moved⟩ := Run.concat_iff.mp last
    obtain rfl := path'.deterministic path
    have bytesAt : v'.arrays[array]? = some (middle.arrays.bytes r) := by simp [arrays, found]
    rw [PacketValues.step_write bytesAt, assigned] at moved
    rw [PacketHeap.step_write found, assigned] at stepped
    obtain rfl := Option.some.inj moved
    obtain rfl := Option.some.inj stepped
    -- the value has stayed the same, and what the packet shows is the array that was written to
    have stays := same.symm.trans shown
    simp only [PacketHeap.values_packets, List.getElem?_map, at_k, Option.map_some, Option.some.injEq] at stays
    have data := congrArg Packet.data (eq_of_heq (Sigma.mk.inj stays).2)
    simp only [PacketObject.value, keeps, Arrays.store_bytes_self] at data
    exact data.symm
  · intro leaves prior middle within before
    obtain ⟨-, v, path, same⟩ := matches_of_run before
    exact ⟨v, path, same.arrays, same.packets k (leaves.restrict within)⟩

/-- A response that was made of an array shows what is written to the array later. -/
theorem not_shows_value_of_write : ¬ ∀ prior middle,
    prior <+: [.allocate [1, 2, 3, 4, 5], .make .response (.ofFields 2 0 4 9 (some 0)), .write 0 0 77] →
    PacketHeap.machine.Run {} prior middle →
    ∃ v, PacketValues.machine.Run {} prior v ∧ v.arrays = middle.values.arrays ∧
      v.packets[0]? = middle.values.packets[0]? := by
  have made : (PacketHeap.machine.replay? {}
      [.allocate [1, 2, 3, 4, 5], .make .response (.ofFields 2 0 4 9 (some 0))]).any (fun middle =>
        middle.outside = [0] ∧ middle.arrays.bytes 0 = [1, 2, 3, 4, 5] ∧
          middle.packets = [⟨.response, ⟨2, 0, 4, 9, 0, { id := 0x7d2, data := 2 }⟩⟩]) = true := by
    decide +kernel
  obtain ⟨middle, before, shown⟩ := (Option.any_eq_true _ _).mp made
  obtain ⟨outside, bytes, packets⟩ := of_decide_eq_true shown
  have found : middle.outside[0]? = some 0 := by rw [outside]; rfl
  have assigned : assignElement (middle.arrays.bytes 0) 0 77 = .ok [77, 2, 3, 4, 5] := by rw [bytes]; rfl
  have stepped : ∃ s, PacketHeap.machine.step middle (.write 0 0 77) = some s := by
    rw [PacketHeap.step_write found, assigned]
    exact ⟨_, rfl⟩
  obtain ⟨s, stepped⟩ := stepped
  have run := Run.concat_iff.mpr ⟨middle, before, stepped⟩
  refine fun exact => absurd ((shows_value_iff run 0).mp exact) fun leaves => ?_
  have same := leaves _ middle _ List.prefix_rfl before 0 0 77 0 _ _ rfl found (by rw [packets]; rfl) rfl assigned
  rw [bytes] at same
  exact absurd same (by decide)

/-- The code is not kept from anything that it could do with values. -/
private theorem exists_step {exact : ℕ → Prop} {v w : PacketValues} {action : PacketAction}
    (same : Matches exact s.values v)
    (moved : PacketValues.machine.step v action = some w) : ∃ next, PacketHeap.machine.step s action = some next := by
  have arrays : v.arrays = s.outside.map s.arrays.bytes := same.arrays
  cases action with
  | allocate bytes => exact ⟨_, rfl⟩
  | write array index value =>
    obtain ⟨bytes, found, -⟩ := Option.bind_eq_some_iff.mp moved
    rw [arrays, List.getElem?_map] at found
    obtain ⟨r, found, -⟩ := Option.map_eq_some_iff.mp found
    rw [PacketHeap.step_write found]
    cases assignElement (s.arrays.bytes r) index value <;> exact ⟨_, rfl⟩
  | make kind making =>
    obtain ⟨bytes, resolved, -⟩ := Option.bind_eq_some_iff.mp moved
    rw [arrays, Making.resolve_map] at resolved
    obtain ⟨found, resolved, -⟩ := Option.map_eq_some_iff.mp resolved
    rw [PacketHeap.step_make resolved]
    rcases PacketObject.construct (found.body kind) s.arrays with ⟨_ | _, _⟩ <;> exact ⟨_, rfl⟩
  | assign packet setting =>
    obtain ⟨⟨kind, this⟩, present, moved⟩ := Option.bind_eq_some_iff.mp moved
    obtain ⟨bytes, resolved, -⟩ := Option.bind_eq_some_iff.mp moved
    rw [arrays, Setting.resolve_map] at resolved
    obtain ⟨found, resolved, -⟩ := Option.map_eq_some_iff.mp resolved
    have inside : packet < s.packets.length := by
      have length := same.length
      rw [PacketHeap.values_packets, List.length_map] at length
      exact length ▸ (List.getElem?_eq_some_iff.mp present).1
    exact ⟨_, PacketHeap.step_assign (List.getElem?_eq_getElem inside) resolved⟩

theorem exists_run {v : PacketValues} (path : PacketValues.machine.Run {} tape v) :
    ∃ s, PacketHeap.machine.Run {} tape s := by
  refine path.invariant (I := fun tape _ => ∃ s, PacketHeap.machine.Run {} tape s) ⟨{}, .refl _⟩ ?_
  rintro prior v action w path ⟨s, run⟩ moved
  obtain ⟨-, v', path', same⟩ := matches_of_run run
  obtain rfl := path'.deterministic path
  obtain ⟨next, stepped⟩ := exists_step same moved
  exact ⟨next, Run.concat_iff.mpr ⟨s, run, stepped⟩⟩

end Code

end OtaCli.Proofs.PacketSharing
