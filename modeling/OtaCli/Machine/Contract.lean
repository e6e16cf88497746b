import OtaCli.Machine.Interaction

/-! # Contracts of sequential code

Code runs on a state of its own, a machine over its answered operations, and is to use something outside as
that allows: a second machine, over what an operation comes to there. `Follows` says so of all the runs of the
code at once, with what holds when it returns. A contract is put together along the code, one rule for
sequencing and one for the parts that do not matter to it, and is handed on by each step. The simplest machine
to follow is a `script`, a list of what is to happen. `Returns` asks only that no run raises.
-/

/-- What is to happen, in order. -/
def LabeledMachine.script (κ : Type) [DecidableEq κ] : LabeledMachine (List κ) κ where
  step
    | [], _ => none
    | next :: rest, event => if event = next then some rest else none

theorem LabeledMachine.script_run_iff {κ : Type} [DecidableEq κ] {all events rest : List κ} :
    (LabeledMachine.script κ).Run all events rest ↔ all = events ++ rest := by
  induction events generalizing all with
  | nil => simp [eq_comm]
  | cons event events ih =>
    rw [LabeledMachine.Run.cons_iff]
    cases all with
    | nil => simp [LabeledMachine.script]
    | cons next all =>
      constructor
      · rintro ⟨middle, moved, run⟩
        obtain ⟨rfl, same⟩ := Option.ite_none_right_eq_some.mp moved
        cases same
        rw [ih.mp run, List.cons_append]
      · intro same
        obtain ⟨rfl, rfl⟩ := List.cons.inj same
        exact ⟨_, if_pos rfl, ih.mpr rfl⟩

namespace Interaction

variable {Op : Type} {Answer : Op → Type} {ε α β τ φ κ : Type}
  {env : LabeledMachine τ (Answered Answer)} {spec : LabeledMachine φ κ} {view : τ → Answered Answer → List κ}

/-- Whatever the code performs on `t`, the specification can follow from `k`; a value is returned only where
`post` holds. -/
def Follows (env : LabeledMachine τ (Answered Answer)) (spec : LabeledMachine φ κ)
    (view : τ → Answered Answer → List κ) (post : α → τ → φ → Prop) :
    Interaction Answer ε α → τ → φ → Prop
  | .ret value, t, k => post value t k
  | .raise _, _, _ => True
  | .perform op next, t, k => ∀ answer t', env.step t ⟨op, answer⟩ = some t' →
    ∃ k', spec.Run k (view t ⟨op, answer⟩) k' ∧ (next answer).Follows env spec view post t' k'

variable {p q : Interaction Answer ε α} {f : α → Interaction Answer ε β} {post : α → τ → φ → Prop}
  {last : β → τ → φ → Prop} {t t' : τ} {k : φ} {event : Answered Answer} {allowed : Op → Prop}

/-- What the first part leaves is where the second one begins. -/
theorem Follows.bind (first : p.Follows env spec view (fun value => (f value).Follows env spec view last) t k) :
    (p >>= f).Follows env spec view last t k := by
  induction p generalizing t k with
  | ret value => exact first
  | raise e => trivial
  | perform op next ih =>
    intro answer t' acts
    obtain ⟨k', run, rest⟩ := first answer t' acts
    exact ⟨k', run, ih answer rest⟩

theorem Follows.mono {weaker : α → τ → φ → Prop} (follows : p.Follows env spec view post t k)
    (implies : ∀ value t k, post value t k → weaker value t k) : p.Follows env spec view weaker t k := by
  induction p generalizing t k with
  | ret value => exact implies value t k follows
  | raise e => trivial
  | perform op next ih =>
    intro answer t' acts
    obtain ⟨k', run, rest⟩ := follows answer t' acts
    exact ⟨k', run, ih answer rest⟩

/-- An operation that means nothing outside. -/
theorem Follows.skip {op : Op} {next : Answer op → Interaction Answer ε α}
    (rest : ∀ answer t', env.step t ⟨op, answer⟩ = some t' →
      view t ⟨op, answer⟩ = [] ∧ (next answer).Follows env spec view post t' k) :
    (perform op next).Follows env spec view post t k := by
  intro answer t' acts
  obtain ⟨silent, later⟩ := rest answer t' acts
  exact ⟨k, by rw [silent]; exact .refl k, later⟩

/-- An operation that leaves the state alone, and is one event outside. -/
theorem Follows.emit {op : Op} {next : Answer op → Interaction Answer ε α}
    (silent : ∀ answer, env.step t ⟨op, answer⟩ = some t)
    (seen : ∀ answer, ∃ event k', view t ⟨op, answer⟩ = [event] ∧ spec.step k event = some k' ∧
      (next answer).Follows env spec view post t k') : (perform op next).Follows env spec view post t k := by
  intro answer t' acts
  obtain rfl := Option.some.inj ((silent answer).symm.trans acts)
  obtain ⟨event, k', same, step, later⟩ := seen answer
  exact ⟨k', by rw [same]; exact LabeledMachine.Run.singleton_iff.mpr step, later⟩

/-- Operations that keep to a part of the states and mean nothing outside can stand anywhere in it. -/
theorem Only.follows_good {I : τ → Prop} {good : α → Prop} (only : p.Only allowed)
    (returned : p.Marks (fun _ => False) good)
    (inert : ∀ event t t', allowed event.1 → I t → env.step t event = some t' → I t' ∧ view t event = [])
    (start : I t) (holds : ∀ value t', good value → I t' → post value t' k) :
    p.Follows env spec view post t k := by
  induction p generalizing t with
  | ret value => exact holds value t returned start
  | raise e => trivial
  | perform op next ih =>
    intro answer t' acts
    obtain ⟨still, silent⟩ := inert ⟨op, answer⟩ t t' only.1 start acts
    exact ⟨k, by rw [silent]; exact .refl k, ih answer (only.2 answer) (returned.resolve_left id answer) still⟩

/-- The same where it does not matter what is returned. -/
theorem Only.follows {I : τ → Prop} (only : p.Only allowed)
    (inert : ∀ event t t', allowed event.1 → I t → env.step t event = some t' → I t' ∧ view t event = [])
    (start : I t) (holds : ∀ value t', I t' → post value t' k) : p.Follows env spec view post t k := by
  have returned : p.Marks (fun _ => False) fun _ => True := by
    induction p generalizing t with
    | ret value => trivial
    | raise e => trivial
    | perform op next ih => exact .inr fun answer => ih answer (only.2 answer) start
  exact only.follows_good returned inert start fun value t' _ => holds value t'

/-- No run of the code raises. -/
def Returns : Interaction Answer ε α → Prop
  | .ret _ => True
  | .raise _ => False
  | .perform _ next => ∀ answer, (next answer).Returns

/-- Where the first part does not return unmarked, neither does the whole. -/
theorem Marks.bind_left {mark : Op → Prop} {good : β → Prop} (left : p.Marks mark fun _ => False) :
    (p >>= f).Marks mark good := by
  induction p with
  | ret value => exact left.elim
  | raise e => trivial
  | perform op next ih => exact left.imp id fun later answer => ih answer (later answer)

variable [DecidableEq Op]

theorem Returns.step (returns : p.Returns) (moves : (machine Answer ε α).step p event = some q) : q.Returns := by
  cases p with
  | ret value => cases moves
  | raise e => cases moves
  | perform op next =>
    obtain ⟨answer, rfl, rfl⟩ := step_perform_iff.mp moves
    exact returns answer

/-- The first part of a sequence runs as it does alone. -/
theorem run_bind {tape : List (Answered Answer)} (run : (machine Answer ε α).Run p tape q) :
    (machine Answer ε β).Run (p >>= f) tape (q >>= f) := by
  induction tape generalizing p with
  | nil =>
    obtain rfl := LabeledMachine.Run.nil_iff.mp run
    exact .refl _
  | cons event rest ih =>
    obtain ⟨middle, moves, later⟩ := LabeledMachine.Run.cons_iff.mp run
    refine LabeledMachine.Run.cons_iff.mpr ⟨middle >>= f, ?_, ih later⟩
    cases p with
    | ret value => cases moves
    | raise e => cases moves
    | perform op next =>
      obtain ⟨answer, rfl, rfl⟩ := step_perform_iff.mp moves
      exact step_perform_iff.mpr ⟨answer, rfl, rfl⟩

/-- A step of the code is followed, and leaves the contract of the rest. -/
theorem Follows.step (follows : p.Follows env spec view post t k)
    (moves : (machine Answer ε α).step p event = some q) (acts : env.step t event = some t') :
    ∃ k', spec.Run k (view t event) k' ∧ q.Follows env spec view post t' k' := by
  cases p with
  | ret value => cases moves
  | raise e => cases moves
  | perform op next =>
    obtain ⟨answer, rfl, rfl⟩ := step_perform_iff.mp moves
    exact follows answer t' acts

/-- A run of the code is followed. What its operations come to may not depend on the state here. -/
theorem Follows.run {seen : Answered Answer → List κ} {tape : List (Answered Answer)}
    (follows : p.Follows env spec (fun _ => seen) post t k) (moves : (machine Answer ε α).Run p tape q)
    (acts : env.Run t tape t') :
    ∃ k', spec.Run k (tape.flatMap seen) k' ∧ q.Follows env spec (fun _ => seen) post t' k' := by
  induction tape generalizing p t k with
  | nil =>
    obtain rfl := LabeledMachine.Run.nil_iff.mp moves
    obtain rfl := LabeledMachine.Run.nil_iff.mp acts
    exact ⟨k, .refl k, follows⟩
  | cons event rest ih =>
    obtain ⟨p₁, moved, moves⟩ := LabeledMachine.Run.cons_iff.mp moves
    obtain ⟨t₁, acted, acts⟩ := LabeledMachine.Run.cons_iff.mp acts
    obtain ⟨k₁, first, follows₁⟩ := follows.step moved acted
    obtain ⟨k', second, last⟩ := ih follows₁ moves acts
    exact ⟨k', first.append second, last⟩

end Interaction
