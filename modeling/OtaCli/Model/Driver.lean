import OtaCli.Model.LifecycleTape

/-! # What a driver says of its channels

A driver that answers in one way is asked for the number of its channels and for the name of each. The channels
it describes are those up to the first one for which it fails, by their index.
-/

namespace OtaCli.Model

structure Driver where
  numberOfChannels : CanStatus × Int32
  channelData : (channel : Int32) → CanStatus × String

namespace Driver

variable (d : Driver)

/-- The answer is the driver's, where the driver is asked for its channels. -/
def answers : Performed → Bool
  | ⟨.canGetNumberOfChannels, answer⟩ => decide (answer = d.numberOfChannels)
  | ⟨.canGetChannelData channel _, answer⟩ => decide (answer = d.channelData channel)
  | _ => true

/-- Of so many channels from the first one on, those that are described before one fails. -/
def described (first rounds : ℕ) : List (Int32 × String) :=
  (((List.range' first rounds).map Int32.ofNat).takeWhile fun i => (d.channelData i).1 = canOK).map
    fun i => (i, (d.channelData i).2)

def channels : List (Int32 × String) :=
  if d.numberOfChannels.1 = canOK then d.described 0 d.numberOfChannels.2.toInt.toNat else []

variable {d} {first rounds : ℕ} {chanelId : Int32}

@[simp] theorem described_zero : d.described first 0 = [] := rfl

theorem described_succ : d.described first (rounds + 1) =
    if (d.channelData (Int32.ofNat first)).1 = canOK then
      (Int32.ofNat first, (d.channelData (Int32.ofNat first)).2) :: d.described (first + 1) rounds
    else [] := by
  by_cases fine : (d.channelData (Int32.ofNat first)).1 = canOK <;>
    simp [described, List.range'_succ, fine]

/-- The channels are numbered from zero on. -/
theorem map_fst_described :
    (d.described first rounds).map Prod.fst =
      (List.range' first (d.described first rounds).length).map Int32.ofNat := by
  induction rounds generalizing first with
  | zero => rfl
  | succ rounds ih =>
    rw [described_succ]
    split
    · simpa [List.range'_succ] using ih
    · rfl

theorem length_described_le : (d.described first rounds).length ≤ rounds := by
  simpa [described] using
    (List.takeWhile_prefix (l := (List.range' first rounds).map Int32.ofNat) _).length_le

theorem length_channels_lt : d.channels.length < 2 ^ 31 := by
  have bound := d.numberOfChannels.2.toInt_lt
  rw [channels]
  split
  · have few : (d.described 0 d.numberOfChannels.2.toInt.toNat).length ≤ _ := length_described_le
    omega
  · simp

/-- A channel can be asked for: it is one of those the driver describes. -/
def Available (d : Driver) (chanelId : Int32) : Prop :=
  0 ≤ chanelId.toInt ∧ chanelId.toInt < d.channels.length

instance : Decidable (d.Available chanelId) := inferInstanceAs (Decidable (_ ∧ _))

end Driver

namespace KvaserInterface

variable {chanelId : Int32} {first second : List (Int32 × String)}

theorem listed_iff : Listed chanelId first ↔ chanelId ∈ first.map Prod.fst := by
  simp [Listed, Option.isNone_iff_eq_none, List.find?_eq_none]

theorem listed_append : Listed chanelId (first ++ second) ↔ Listed chanelId first ∨ Listed chanelId second := by
  simp only [listed_iff, List.map_append, List.mem_append]

theorem listed_channels_iff {d : Driver} : Listed chanelId d.channels ↔ d.Available chanelId := by
  have ids : d.channels.map Prod.fst = (List.range d.channels.length).map Int32.ofNat := by
    rw [Driver.channels]
    split
    · rw [Driver.map_fst_described, List.range_eq_range']
    · rfl
  have small := d.length_channels_lt
  rw [listed_iff, ids, List.mem_map, Driver.Available]
  constructor
  · rintro ⟨n, member, rfl⟩
    rw [List.mem_range] at member
    rw [Int32.toInt_ofNat_of_lt (by omega)]
    omega
  · rintro ⟨least, most⟩
    refine ⟨chanelId.toInt.toNat, List.mem_range.mpr (by omega), ?_⟩
    rw [← Int32.toInt_inj, Int32.toInt_ofNat_of_lt (by omega)]
    omega

end KvaserInterface

end OtaCli.Model
