import OtaCli.Machine.Run

/-! # Sequential code and the answers it is given

An `Interaction` is code cut at its operations: it returns, raises, or performs an operation and goes
on with whatever is answered. As a labelled machine it moves by answered operations, and a tape of
these says all there is to know about a run. `Ends` is a run to the end of the code, with a rule for
each constructor and one for sequencing. `Only` bounds the operations that any run can perform, `Marks`
says which values are returned only after a certain operation, and `Finishes` that an operation is the
last one.
-/

inductive Interaction {Op : Type} (Answer : Op → Type) (ε α : Type) where
  | ret (value : α)
  | raise (e : ε)
  | perform (op : Op) (next : Answer op → Interaction Answer ε α)

namespace Interaction

variable {Op : Type} {Answer : Op → Type} {ε α β : Type}

protected def bind (p : Interaction Answer ε α) (f : α → Interaction Answer ε β) :
    Interaction Answer ε β :=
  match p with
  | .ret value => f value
  | .raise e => .raise e
  | .perform op next => .perform op fun answer => (next answer).bind f

instance : Monad (Interaction Answer ε) where
  pure := .ret
  bind := Interaction.bind

/-- An operation, with its answer as the value. -/
def call (op : Op) : Interaction Answer ε (Answer op) := .perform op .ret

/-- Code which has come to this outcome. -/
def ended : Except ε α → Interaction Answer ε α
  | .ok value => .ret value
  | .error e => .raise e

section Equations

variable (f : α → Interaction Answer ε β)

@[simp] theorem pure_eq (value : α) : (pure value : Interaction Answer ε α) = .ret value := rfl

@[simp] theorem ret_bind (value : α) : Interaction.ret value >>= f = f value := rfl

@[simp] theorem raise_bind (e : ε) : Interaction.raise e >>= f = .raise e := rfl

@[simp] theorem perform_bind (op : Op) (next : Answer op → Interaction Answer ε α) :
    Interaction.perform op next >>= f = .perform op fun answer => next answer >>= f := rfl

@[simp] theorem call_bind (op : Op) (f : Answer op → Interaction Answer ε β) :
    call op >>= f = .perform op f := rfl

end Equations

theorem ended_injective : Function.Injective (ended : Except ε α → Interaction Answer ε α) := by
  intro left right same
  cases left <;> cases right <;> cases same <;> rfl

section Operations

variable {p : Interaction Answer ε α} {f : α → Interaction Answer ε β} {allowed mark : Op → Prop}

/-- No run performs any other operation. -/
def Only (allowed : Op → Prop) : Interaction Answer ε α → Prop
  | .ret _ => True
  | .raise _ => True
  | .perform op next => allowed op ∧ ∀ answer, (next answer).Only allowed

theorem Only.bind (left : p.Only allowed) (right : ∀ value, (f value).Only allowed) :
    (p >>= f).Only allowed := by
  induction p with
  | ret value => exact right value
  | raise e => trivial
  | perform op next ih =>
    obtain ⟨here, later⟩ := left
    exact ⟨here, fun answer => ih answer (later answer)⟩

theorem Only.ended (outcome : Except ε α) : (ended outcome : Interaction Answer ε α).Only allowed := by
  cases outcome <;> trivial

theorem Only.mono {wider : Op → Prop} (only : p.Only allowed) (implies : ∀ op, allowed op → wider op) :
    p.Only wider := by
  induction p with
  | ret value => trivial
  | raise e => trivial
  | perform op next ih =>
    obtain ⟨here, later⟩ := only
    exact ⟨implies _ here, fun answer => ih answer (later answer)⟩

theorem Only.and {other : Op → Prop} (left : p.Only allowed) (right : p.Only other) :
    p.Only fun op => allowed op ∧ other op := by
  induction p with
  | ret value => trivial
  | raise e => trivial
  | perform op next ih => exact ⟨⟨left.1, right.1⟩, fun answer => ih answer (left.2 answer) (right.2 answer)⟩

/-- Values that are not `good` are returned only after a marked operation. -/
def Marks (mark : Op → Prop) (good : α → Prop) : Interaction Answer ε α → Prop
  | .ret value => good value
  | .raise _ => True
  | .perform op next => mark op ∨ ∀ answer, (next answer).Marks mark good

theorem Marks.bind {good : β → Prop} (right : ∀ value, (f value).Marks mark good) :
    (p >>= f).Marks mark good := by
  induction p with
  | ret value => exact right value
  | raise e => trivial
  | perform op next ih => exact .inr ih

/-- After a marked operation the code returns the value. -/
def Finishes (mark : Op → Prop) (value : α) : Interaction Answer ε α → Prop
  | .ret _ => True
  | .raise _ => True
  | .perform op next => (mark op → ∀ answer, next answer = .ret value) ∧
    ∀ answer, (next answer).Finishes mark value

theorem Finishes.bind {value : β} (left : p.Only fun op => ¬ mark op)
    (right : ∀ value', (f value').Finishes mark value) : (p >>= f).Finishes mark value := by
  induction p with
  | ret value' => exact right value'
  | raise e => trivial
  | perform op next ih =>
    obtain ⟨here, later⟩ := left
    exact ⟨fun marked => absurd marked here, fun answer => ih answer (later answer)⟩

end Operations

/-- An operation that was performed, and what was answered. -/
abbrev Answered (Answer : Op → Type) := (op : Op) × Answer op

variable [DecidableEq Op]

def step : Interaction Answer ε α → Answered Answer → Option (Interaction Answer ε α)
  | .perform op next, event => if same : event.1 = op then some (next (same ▸ event.2)) else none
  | .ret _, _ => none
  | .raise _, _ => none

/-- Code in an arbitrary environment. -/
def machine (Answer : Op → Type) (ε α : Type) :
    LabeledMachine (Interaction Answer ε α) (Answered Answer) := ⟨step⟩

/-- The code runs to its end along the tape, with the outcome. -/
def Ends (p : Interaction Answer ε α) (tape : List (Answered Answer)) (outcome : Except ε α) : Prop :=
  (machine Answer ε α).Run p tape (ended outcome)

variable {p q : Interaction Answer ε α} {f : α → Interaction Answer ε β} {op : Op}
  {next : Answer op → Interaction Answer ε α} {event : Answered Answer}
  {tape first second : List (Answered Answer)} {outcome : Except ε α}

/-- A step answers the operation the code is about to perform. -/
theorem step_perform_iff :
    (machine Answer ε α).step (.perform op next) event = some q ↔
      ∃ answer, event = ⟨op, answer⟩ ∧ next answer = q := by
  constructor
  · intro stepped
    obtain ⟨same, moved⟩ := Option.dite_none_right_eq_some.mp stepped
    rcases event with ⟨_, answer⟩
    cases same
    exact ⟨answer, rfl, Option.some.inj moved⟩
  · rintro ⟨answer, rfl, rfl⟩
    exact dif_pos rfl

theorem step_ended (stepped : (machine Answer ε α).step (ended outcome) event = some q) : False := by
  cases outcome <;> cases stepped

/-- What has come to its end goes nowhere. -/
theorem run_ended_iff :
    (machine Answer ε α).Run (ended outcome) tape q ↔ tape = [] ∧ q = ended outcome := by
  constructor
  · intro run
    cases tape with
    | nil => exact ⟨rfl, LabeledMachine.Run.nil_iff.mp run⟩
    | cons event rest =>
      obtain ⟨_, stepped, -⟩ := LabeledMachine.Run.cons_iff.mp run
      exact (step_ended stepped).elim
  · rintro ⟨rfl, rfl⟩
    exact .refl _

section Ends

@[simp] theorem ends_ret_iff {value : α} :
    Ends (.ret value : Interaction Answer ε α) tape outcome ↔ tape = [] ∧ outcome = .ok value := by
  change (machine Answer ε α).Run (ended (.ok value)) tape (ended outcome) ↔ _
  rw [run_ended_iff, ended_injective.eq_iff]

@[simp] theorem ends_raise_iff {e : ε} :
    Ends (.raise e : Interaction Answer ε α) tape outcome ↔ tape = [] ∧ outcome = .error e := by
  change (machine Answer ε α).Run (ended (.error e)) tape (ended outcome) ↔ _
  rw [run_ended_iff, ended_injective.eq_iff]

@[simp] theorem ends_perform_iff : Ends (.perform op next) tape outcome ↔
    ∃ answer rest, tape = ⟨op, answer⟩ :: rest ∧ Ends (next answer) rest outcome := by
  constructor
  · intro ends
    cases tape with
    | nil =>
      have same := LabeledMachine.Run.nil_iff.mp ends
      cases outcome <;> cases same
    | cons event rest =>
      obtain ⟨_, stepped, run⟩ := LabeledMachine.Run.cons_iff.mp ends
      obtain ⟨answer, rfl, rfl⟩ := step_perform_iff.mp stepped
      exact ⟨answer, rest, rfl, run⟩
  · rintro ⟨answer, rest, rfl, run⟩
    exact LabeledMachine.Run.cons_iff.mpr ⟨_, step_perform_iff.mpr ⟨answer, rfl, rfl⟩, run⟩

theorem Ends.perform {answer : Answer op} (ends : Ends (next answer) tape outcome) :
    Ends (.perform op next) (⟨op, answer⟩ :: tape) outcome :=
  ends_perform_iff.mpr ⟨answer, tape, rfl, ends⟩

theorem ends_call_iff {outcome : Except ε (Answer op)} :
    Ends (call op) tape outcome ↔ ∃ answer, tape = [⟨op, answer⟩] ∧ outcome = .ok answer := by
  rw [call, ends_perform_iff]
  constructor
  · rintro ⟨answer, _, rfl, ends⟩
    obtain ⟨rfl, rfl⟩ := ends_ret_iff.mp ends
    exact ⟨answer, rfl, rfl⟩
  · rintro ⟨answer, rfl, rfl⟩
    exact ⟨answer, [], rfl, ends_ret_iff.mpr ⟨rfl, rfl⟩⟩

/-- What becomes of a sequence: the first part raises, or it returns and the rest runs on. -/
theorem ends_bind_iff {outcome : Except ε β} : Ends (p >>= f) tape outcome ↔
    (∃ value first second, tape = first ++ second ∧ Ends p first (.ok value) ∧
      Ends (f value) second outcome) ∨
    ∃ e, Ends p tape (.error e) ∧ outcome = .error e := by
  induction p generalizing tape with
  | ret value => simp
  | raise e => simp
  | perform op next ih =>
    simp only [perform_bind, ends_perform_iff, ih]
    constructor
    · rintro ⟨answer, rest, rfl, ⟨value, first, second, rfl, left, right⟩ | ⟨e, left, rfl⟩⟩
      · exact .inl ⟨value, _, second, rfl, ⟨answer, first, rfl, left⟩, right⟩
      · exact .inr ⟨e, ⟨answer, rest, rfl, left⟩, rfl⟩
    · rintro (⟨value, _, second, rfl, ⟨answer, first, rfl, left⟩, right⟩ |
        ⟨e, ⟨answer, rest, rfl, left⟩, rfl⟩)
      · exact ⟨answer, first ++ second, rfl, .inl ⟨value, first, second, rfl, left, right⟩⟩
      · exact ⟨answer, rest, rfl, .inr ⟨e, left, rfl⟩⟩

theorem Ends.bind {value : α} {outcome : Except ε β} (left : Ends p first (.ok value))
    (right : Ends (f value) second outcome) : Ends (p >>= f) (first ++ second) outcome :=
  ends_bind_iff.mpr (.inl ⟨value, first, second, rfl, left, right⟩)

/-- Along one tape the code comes to its end once. -/
theorem Ends.unique {other : Except ε α} (left : Ends p first outcome) (right : Ends p second other)
    (within : first <+: tape) (within' : second <+: tape) : first = second ∧ outcome = other := by
  rcases List.prefix_or_prefix_of_prefix within within' with ⟨rest, rfl⟩ | ⟨rest, rfl⟩
  · obtain ⟨middle, begun, finished⟩ := LabeledMachine.Run.append_iff.mp right
    obtain rfl := LabeledMachine.Run.deterministic left begun
    obtain ⟨rfl, same⟩ := run_ended_iff.mp finished
    exact ⟨(List.append_nil _).symm, (ended_injective same).symm⟩
  · obtain ⟨middle, begun, finished⟩ := LabeledMachine.Run.append_iff.mp left
    obtain rfl := LabeledMachine.Run.deterministic right begun
    obtain ⟨rfl, same⟩ := run_ended_iff.mp finished
    exact ⟨List.append_nil _, ended_injective same⟩

end Ends

section Steps

variable {allowed mark : Op → Prop} {good : α → Prop}

theorem Only.step (only : p.Only allowed) (stepped : (machine Answer ε α).step p event = some q) :
    allowed event.1 ∧ q.Only allowed := by
  cases p with
  | ret value => cases stepped
  | raise e => cases stepped
  | perform op next =>
    obtain ⟨answer, rfl, rfl⟩ := step_perform_iff.mp stepped
    exact ⟨only.1, only.2 answer⟩

theorem Only.run (only : p.Only allowed) (run : (machine Answer ε α).Run p tape q) :
    ∀ event ∈ tape, allowed event.1 := by
  have along : (∀ event ∈ tape, allowed event.1) ∧ q.Only allowed := by
    refine run.invariant (I := fun prior r => (∀ event ∈ prior, allowed event.1) ∧ r.Only allowed)
      ⟨by simp, only⟩ ?_
    rintro prior middle event next - ⟨before, rest⟩ stepped
    obtain ⟨here, later⟩ := rest.step stepped
    refine ⟨?_, later⟩
    simpa [or_imp, forall_and] using And.intro before here
  exact along.1

theorem Marks.step (marks : p.Marks mark good)
    (stepped : (machine Answer ε α).step p event = some q) : mark event.1 ∨ q.Marks mark good := by
  cases p with
  | ret value => cases stepped
  | raise e => cases stepped
  | perform op next =>
    obtain ⟨answer, rfl, rfl⟩ := step_perform_iff.mp stepped
    exact marks.imp id fun later => later answer

theorem Finishes.step {value : α} (finishes : p.Finishes mark value)
    (stepped : (machine Answer ε α).step p event = some q) :
    (mark event.1 → q = .ret value) ∧ q.Finishes mark value := by
  cases p with
  | ret value => cases stepped
  | raise e => cases stepped
  | perform op next =>
    obtain ⟨answer, rfl, rfl⟩ := step_perform_iff.mp stepped
    exact ⟨fun marked => finishes.1 marked answer, finishes.2 answer⟩

/-- Code that has performed a marked operation returns the value. -/
theorem Finishes.returns {value : α} {outcome : Except ε α} (finishes : p.Finishes mark value)
    (ends : Ends p tape outcome) (marked : ∃ event ∈ tape, mark event.1) : outcome = .ok value := by
  induction tape generalizing p with
  | nil => simp at marked
  | cons event rest ih =>
    obtain ⟨q, stepped, later⟩ := LabeledMachine.Run.cons_iff.mp ends
    obtain ⟨returned, finishes⟩ := finishes.step stepped
    by_cases here : mark event.1
    · rw [returned here] at later
      exact (ends_ret_iff.mp later).2
    · obtain ⟨other, member, isMarked⟩ := marked
      obtain rfl | member := List.mem_cons.mp member
      · exact absurd isMarked here
      · exact ih finishes later ⟨other, member, isMarked⟩

end Steps

end Interaction
