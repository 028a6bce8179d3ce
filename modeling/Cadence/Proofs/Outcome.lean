import Cadence.Proofs.Calm
import Mathlib.Data.List.Forall2

namespace Cadence

variable {ε σ α β : Type}

theorem bind_of_ok {first : EStateM ε σ α} {world middle : σ} {value : α}
    (ran : first world = .ok value middle) (next : α → EStateM ε σ β) :
    (first >>= next) world = next value middle := by
  change EStateM.bind first next world = _
  rw [EStateM.bind, ran]

theorem map_of_ok {effect : EStateM ε σ α} {world after : σ} {value : α}
    (ran : effect world = .ok value after) (view : α → β) :
    (view <$> effect) world = .ok (view value) after := by
  rw [← bind_pure_comp, bind_of_ok ran]
  rfl

/-- What the effect answers, if it does, holds. -/
def Ensures (holds : α → Prop) (effect : EStateM ε σ α) : Prop :=
  ∀ world value after, effect world = .ok value after → holds value

namespace Ensures

variable {holds : α → Prop} {held : β → Prop}

theorem pure {value : α} (here : holds value) :
    Ensures holds (Pure.pure value : EStateM ε σ α) := by
  rintro world _ _ ⟨⟩
  exact here

theorem bind {first : EStateM ε σ α} {next : α → EStateM ε σ β} (start : Ensures holds first)
    (rest : ∀ value, holds value → Ensures held (next value)) : Ensures held (first >>= next) := by
  intro world value after ran
  cases began : first world with
  | ok middle reached =>
      rw [bind_of_ok began] at ran
      exact rest middle (start world middle reached began) reached value after ran
  | error fault reached =>
      change EStateM.bind first next world = _ at ran
      rw [EStateM.bind, began] at ran
      exact nomatch ran

theorem map {view : α → β} {effect : EStateM ε σ α} (ensures : Ensures holds effect)
    (viewed : ∀ value, holds value → held (view value)) : Ensures held (view <$> effect) := by
  rw [← bind_pure_comp]
  exact ensures.bind fun value here => pure (viewed value here)

theorem any (effect : EStateM ε σ α) : Ensures (fun _ => True) effect :=
  fun _ _ _ _ => trivial

theorem mapM {related : α → β → Prop} {effect : α → EStateM ε σ β} {values : List α}
    (each : ∀ value ∈ values, Ensures (related value) (effect value)) :
    Ensures (List.Forall₂ related values) (values.mapM effect) := by
  induction values with
  | nil => exact pure .nil
  | cons value values ih =>
      rw [List.mapM_cons]
      have later := ih fun other member => each other (List.mem_cons_of_mem _ member)
      refine (each value List.mem_cons_self).bind fun _ here => later.bind fun _ rest => ?_
      exact pure (.cons here rest)

end Ensures

namespace Calmly

variable {calm : σ → Prop}

theorem pure (value : α) : Calmly calm (Pure.pure value : EStateM ε σ α) :=
  fun world peace => ⟨value, world, rfl, peace⟩

theorem bind {first : EStateM ε σ α} {next : α → EStateM ε σ β} (start : Calmly calm first)
    (rest : ∀ value, Calmly calm (next value)) : Calmly calm (first >>= next) := by
  intro world peace
  obtain ⟨middle, reached, began, calmReached⟩ := start world peace
  obtain ⟨value, after, ran, calmAfter⟩ := rest middle reached calmReached
  refine ⟨value, after, ?_, calmAfter⟩
  rw [bind_of_ok began]
  exact ran

theorem map (view : α → β) {effect : EStateM ε σ α} (calmly : Calmly calm effect) :
    Calmly calm (view <$> effect) := by
  rw [← bind_pure_comp]
  exact calmly.bind fun value => pure (view value)

theorem mapM {effect : α → EStateM ε σ β} (each : ∀ value, Calmly calm (effect value))
    (values : List α) : Calmly calm (values.mapM effect) := by
  induction values with
  | nil => exact pure []
  | cons value values ih =>
      rw [List.mapM_cons]
      exact (each value).bind fun result => ih.bind fun results => pure (result :: results)

end Calmly
end Cadence
