import Mathlib.Logic.Basic

/-! # Data refinement of bodies that may throw

A body on concrete states and one on abstract states agree when both return the same value or both throw the
same exception, and the states which they leave are related again. Bodies are put together from parts that agree.
-/

namespace EStateM

variable {ε σ τ α β : Type}

/-- The same outcome, in related states. -/
def Result.Agree (related : σ → τ → Prop) : Result ε σ α → Result ε τ α → Prop
  | .ok a s, .ok b t => a = b ∧ related s t
  | .error e s, .error f t => e = f ∧ related s t
  | _, _ => False

/-- The concrete body does in every state what the abstract one does in the states related to it. -/
def Refines (related : σ → τ → Prop) (concrete : EStateM ε σ α) (abstract : EStateM ε τ α) : Prop :=
  ∀ s t, related s t → (concrete s).Agree related (abstract t)

variable {related wider : σ → τ → Prop} {concrete : EStateM ε σ α} {abstract : EStateM ε τ α}
  {f : α → EStateM ε σ β} {g : α → EStateM ε τ β} {s : σ} {t : τ}

theorem Result.Agree.mono {r : Result ε σ α} {r' : Result ε τ α} (agree : r.Agree related r')
    (implies : ∀ s t, related s t → wider s t) : r.Agree wider r' := by
  cases r <;> cases r' <;> first | exact agree.elim | exact ⟨agree.1, implies _ _ agree.2⟩

theorem Result.Agree.bind (first : (concrete s).Agree related (abstract t))
    (next : ∀ a s t, related s t → (f a s).Agree wider (g a t))
    (implies : ∀ s t, related s t → wider s t) :
    ((concrete >>= f) s).Agree wider ((abstract >>= g) t) := by
  simp only [Bind.bind, EStateM.bind]
  cases left : concrete s <;> cases right : abstract t <;> rw [left, right] at first
  case ok.ok a s' b t' =>
    obtain ⟨rfl, still⟩ := first
    exact next a s' t' still
  case error.error e s' e' t' => exact ⟨first.1, implies _ _ first.2⟩
  all_goals exact first.elim

theorem Refines.pure (a : α) : Refines related (pure a : EStateM ε σ α) (pure a) :=
  fun _ _ holds => ⟨rfl, holds⟩

theorem Refines.bind (first : Refines related concrete abstract) (next : ∀ a, Refines related (f a) (g a)) :
    Refines related (concrete >>= f) (abstract >>= g) :=
  fun s t holds => (first s t holds).bind (fun a => next a) fun _ _ => id

/-- What a body reads it may read off the concrete state or off the abstract one. -/
theorem Refines.get {c : σ → EStateM ε σ β} {a : τ → EStateM ε τ β}
    (next : ∀ s t, related s t → (c s s).Agree related (a t t)) :
    Refines related (get >>= c) (get >>= a) := next

end EStateM
