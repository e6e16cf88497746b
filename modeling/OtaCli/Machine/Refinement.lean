import OtaCli.Machine.Run

/-! # Machines in an environment, and simulation along a view

`within` runs a machine inside an environment: an environment event may carry an event of the
machine, and then both move; otherwise only the environment does. A run of the whole is a run of
each side, so what is proved of the machine alone, in any environment whatever, holds in every
particular one.

`Simulates` relates a machine to another whose events are read off the first one's by a partial
view. A run of the first is then matched by the run of the second along the viewed tape.
-/

namespace LabeledMachine

variable {σ τ ε κ φ : Type*}

/-- `m` driven by the environment: `view` says which event of `m`, if any, a step performs. -/
def within (m : LabeledMachine σ ε) (env : LabeledMachine τ κ) (view : κ → Option ε) :
    LabeledMachine (σ × τ) κ where
  step state action :=
    (match view action with
      | some event => m.step state.1 event
      | none => some state.1).bind fun inner =>
    (env.step state.2 action).map fun outer => (inner, outer)

section Within

variable {m : LabeledMachine σ ε} {env : LabeledMachine τ κ} {view : κ → Option ε}
  {source target : σ} {around after : τ} {action : κ} {actions : List κ}

/-- A joint step is a step of the environment and, where it carries an event, one of `m`. -/
theorem within_step_iff :
    (m.within env view).step (source, around) action = some (target, after) ↔
      m.Run source (view action).toList target ∧ env.step around action = some after := by
  cases seen : view action with
  | none => simp [within, seen, and_comm, eq_comm]
  | some event => cases inner : m.step source event <;> simp [within, seen, inner, and_comm]

/-- A joint run is a run of the machine over the events it takes part in and a run of the
environment over the whole tape. -/
theorem within_run_iff :
    (m.within env view).Run (source, around) actions (target, after) ↔
      m.Run source (actions.filterMap view) target ∧ env.Run around actions after := by
  induction actions generalizing source around with
  | nil => simp
  | cons action rest ih =>
    have viewed : (action :: rest).filterMap view = (view action).toList ++ rest.filterMap view := by
      cases seen : view action <;> simp [seen]
    rw [viewed, Run.append_iff, Run.cons_iff, Run.cons_iff]
    constructor
    · rintro ⟨⟨middle, beside⟩, step, tail⟩
      obtain ⟨inner, outer⟩ := within_step_iff.mp step
      exact ⟨⟨middle, inner, (ih.mp tail).1⟩, beside, outer, (ih.mp tail).2⟩
    · rintro ⟨⟨middle, inner, innerTail⟩, beside, outer, outerTail⟩
      exact ⟨(middle, beside), within_step_iff.mpr ⟨inner, outer⟩, ih.mpr ⟨innerTail, outerTail⟩⟩

theorem Run.inner (run : (m.within env view).Run (source, around) actions (target, after)) :
    m.Run source (actions.filterMap view) target := (within_run_iff.mp run).1

end Within

/-- Each step of `m` is matched by the viewed event of `n`, or leaves the related state alone. -/
structure Simulates (m : LabeledMachine σ ε) (n : LabeledMachine τ φ) (view : ε → Option φ)
    (related : List ε → σ → τ → Prop) (source : σ) : Prop where
  step : ∀ {events state image event next}, m.Run source events state →
    related events state image → m.step state event = some next →
    ∃ follow, n.Run image (view event).toList follow ∧ related (events ++ [event]) next follow

/-- A simulation carries every run to the run of the abstract machine over the viewed tape. -/
theorem Simulates.run {m : LabeledMachine σ ε} {n : LabeledMachine τ φ} {view : ε → Option φ}
    {related : List ε → σ → τ → Prop} {source target : σ} {image : τ} {events : List ε}
    (sim : Simulates m n view related source) (initial : related [] source image)
    (run : m.Run source events target) :
    ∃ follow, n.Run image (events.filterMap view) follow ∧ related events target follow := by
  refine run.invariant (I := fun tape state =>
    ∃ follow, n.Run image (tape.filterMap view) follow ∧ related tape state follow)
    ⟨image, .refl _, initial⟩ ?_
  rintro prior middle event next before ⟨follow, path, holds⟩ step
  obtain ⟨final, last, holds⟩ := sim.step before holds step
  refine ⟨final, ?_, holds⟩
  have joined := path.append last
  cases seen : view event <;> simpa [List.filterMap_append, seen] using joined

end LabeledMachine
