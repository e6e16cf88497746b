import OtaCli.Machine.Run

/-! # A one-place mailbox without acknowledgement

A writer puts values into one cell and overwrites what is there. A reader polls the cell until it
finds a value and then clears it, in two separate steps; which value it erases is not checked. The
writer may put at any time, also between the two.

What survives is stated on the tape of operations. A poll that succeeds sees the last value put, two
polls that succeed have a put between them, and after a put the cell stays full until it is cleared.
-/

namespace Mailbox

variable {α : Type*}

inductive Op (α : Type*) where
  | put (value : α)
  | poll (seen : Option α)
  | clear

namespace Op

@[simp] def put? : Op α → Option α
  | .put value => some value
  | _ => none

@[simp] def taken? : Op α → Option α
  | .poll seen => seen
  | _ => none

end Op

/-- The cell, and whether the reader has found a value and is about to clear. -/
structure Box (α : Type*) where
  content : Option α
  taking : Bool

/-- A cell nobody is taking from. -/
def idle (content : Option α) : Box α := ⟨content, false⟩

/-- One operation; the reader polls until it takes, then clears. -/
def step [DecidableEq α] (box : Box α) : Op α → Option (Box α)
  | .put value => some { box with content := some value }
  | .poll seen =>
    if box.taking = false ∧ box.content = seen then some ⟨box.content, box.content.isSome⟩ else none
  | .clear => if box.taking then some (idle none) else none

def machine (α : Type*) [DecidableEq α] : LabeledMachine (Box α) (Op α) := ⟨step⟩

/-- The values put, in order. -/
def puts (ops : List (Op α)) : List α := ops.filterMap Op.put?

/-- The values which successful polls have seen, in order. -/
def takes (ops : List (Op α)) : List α := ops.filterMap Op.taken?

@[simp] theorem puts_nil : puts ([] : List (Op α)) = [] := rfl

@[simp] theorem takes_nil : takes ([] : List (Op α)) = [] := rfl

@[simp] theorem puts_concat (ops : List (Op α)) (op : Op α) :
    puts (ops ++ [op]) = puts ops ++ op.put?.toList := LabeledMachine.filterMap_concat _ ops op

@[simp] theorem takes_concat (ops : List (Op α)) (op : Op α) :
    takes (ops ++ [op]) = takes ops ++ op.taken?.toList := LabeledMachine.filterMap_concat _ ops op

section Runs

variable [DecidableEq α] {ops first second : List (Op α)} {source box : Box α} {a b : α}

/-- What each operation needs and does. -/
theorem step_cases {op : Op α} {next : Box α} (moved : (machine α).step box op = some next) :
    (∃ value, op = .put value ∧ next = { box with content := some value }) ∨
    (op = .poll box.content ∧ box.taking = false ∧ next = ⟨box.content, box.content.isSome⟩) ∨
    (op = .clear ∧ box.taking = true ∧ next = idle none) := by
  cases op with
  | put value => exact .inl ⟨value, rfl, (Option.some.inj moved).symm⟩
  | poll seen =>
    obtain ⟨⟨free, rfl⟩, same⟩ := Option.ite_none_right_eq_some.mp moved
    exact .inr (.inl ⟨rfl, free, (Option.some.inj same).symm⟩)
  | clear =>
    obtain ⟨taking, same⟩ := Option.ite_none_right_eq_some.mp moved
    exact .inr (.inr ⟨rfl, taking, (Option.some.inj same).symm⟩)

/-- From an empty cell: what it holds is the last value put, and a value waiting in it was put after
all those already taken. -/
structure Fresh (ops : List (Op α)) (box : Box α) : Prop where
  last : ∀ value, box.content = some value → (puts ops).getLast? = some value
  taken : (takes ops).length ≤ (puts ops).length
  waiting : box.taking = false → box.content ≠ none → (takes ops).length < (puts ops).length

theorem fresh_of_run (run : (machine α).Run (idle none) ops box) : Fresh ops box := by
  refine run.invariant (I := Fresh) ⟨by simp [idle], by simp, by simp [idle]⟩ ?_
  rintro prior box op next - ⟨last, taken, waiting⟩ moved
  obtain ⟨value, rfl, rfl⟩ | ⟨rfl, free, rfl⟩ | ⟨rfl, taking, rfl⟩ := step_cases moved
  · have more : (takes (prior ++ [.put value])).length < (puts (prior ++ [.put value])).length := by
      simpa using Nat.lt_succ_of_le taken
    exact ⟨by simp, Nat.le_of_lt more, fun _ _ => more⟩
  · rcases content : box.content with _ | value
    · refine ⟨by simp, by simpa using taken, by simp⟩
    · refine ⟨by simpa using last value content, ?_, by simp⟩
      simpa using Nat.succ_le_of_lt (waiting free (by simp [content]))
  · exact ⟨by simp [idle], by simpa using taken, by simp [idle]⟩

/-- Every successful poll sees the last value put before it. -/
theorem last_put_of_take (run : (machine α).Run (idle none) (first ++ [.poll (some a)]) box) :
    (puts first).getLast? = some a := by
  obtain ⟨middle, before, moved⟩ := LabeledMachine.Run.concat_iff.mp run
  obtain ⟨_, ⟨⟩, _⟩ | ⟨same, -⟩ | ⟨⟨⟩, _⟩ := step_cases moved
  exact (fresh_of_run before).last a (Op.poll.inj same).symm

/-- A reader that is about to clear finds nothing afterwards unless something is put. -/
theorem put_of_next_take (taking : source.taking = true)
    (run : (machine α).Run source (ops ++ [.poll (some b)]) box) : puts ops ≠ [] := by
  obtain ⟨middle, before, moved⟩ := LabeledMachine.Run.concat_iff.mp run
  have unchanged : puts ops = [] → middle.taking = true ∨ middle.content = none := by
    refine before.invariant
      (I := fun tape box => puts tape = [] → box.taking = true ∨ box.content = none)
      (fun _ => .inl taking) ?_
    rintro prior box op next - holds moved
    obtain ⟨value, rfl, rfl⟩ | ⟨rfl, free, rfl⟩ | ⟨rfl, taking, rfl⟩ := step_cases moved
    · simp
    · intro none_put
      simp only [puts_concat, Op.put?, Option.toList_none, List.append_nil] at none_put
      exact .inr ((holds none_put).resolve_left (by simp [free]))
    · exact fun _ => .inr rfl
  intro none_put
  obtain ⟨_, ⟨⟩, _⟩ | ⟨same, free, -⟩ | ⟨⟨⟩, _⟩ := step_cases moved
  have vacant := (unchanged none_put).resolve_left (by simp [free])
  rw [vacant] at same
  cases same

/-- Between two successful polls there is a put. -/
theorem puts_lt_of_takes (run : (machine α).Run source (second ++ [.poll (some b)]) box)
    (earlier : first ++ [.poll (some a)] <+: second) : (puts first).length < (puts second).length := by
  obtain ⟨rest, rfl⟩ := earlier
  rw [List.append_assoc, LabeledMachine.Run.append_iff] at run
  obtain ⟨middle, before, after⟩ := run
  obtain ⟨_, _, moved⟩ := LabeledMachine.Run.concat_iff.mp before
  obtain ⟨_, ⟨⟩, _⟩ | ⟨same, -, rfl⟩ | ⟨⟨⟩, _⟩ := step_cases moved
  have between := put_of_next_take (by rw [← Op.poll.inj same]; rfl) after
  have grown : puts (first ++ [.poll (some a)] ++ rest) = puts first ++ puts rest := by
    rw [puts, List.filterMap_append, ← puts, ← puts, puts_concat]
    simp
  rw [grown, List.length_append]
  exact Nat.lt_add_of_pos_right (List.length_pos_iff.mpr between)

/-- Once something was put, only a clear empties the cell. -/
theorem content_ne_none_of_put (run : (machine α).Run source ops box)
    (put : puts ops ≠ []) (uncleared : .clear ∉ ops) : box.content ≠ none := by
  refine run.invariant
    (I := fun tape box => puts tape ≠ [] → .clear ∉ tape → box.content ≠ none)
    (by simp) ?_ put uncleared
  rintro prior box op next - holds moved
  obtain ⟨value, rfl, rfl⟩ | ⟨rfl, free, rfl⟩ | ⟨rfl, taking, rfl⟩ := step_cases moved
  · simp
  · simpa using holds
  · simp

end Runs

end Mailbox
