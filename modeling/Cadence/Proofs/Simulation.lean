import Cadence.Schedule

/-!
Schedules that one map of states ties together. What the one shows in a run the other shows too, and
whatever steps do besides is done in the same order, in either.
-/
namespace Cadence

def Decision.bimap {κ ι O A : Type} (route : κ → ι) (view : O → A) : Decision κ O → Decision ι A
  | done output => done (view output)
  | proceed output delay next => proceed (view output) delay (route next)

namespace Decision

variable {κ ι η O : Type}

theorem bimap_id (route : κ → ι) :
    (fun decision : Decision κ O => decision.bimap route id) = redirect route := by
  funext decision
  cases decision <;> rfl

theorem redirect_id : (redirect id : Decision κ O → Decision κ O) = id := by
  funext decision
  cases decision <;> rfl

theorem redirect_redirect (route : κ → ι) (further : ι → η) (decision : Decision κ O) :
    (decision.redirect route).redirect further = decision.redirect (further ∘ route) := by
  cases decision <;> rfl

end Decision

namespace Schedule

variable {m : Type → Type} [Monad m] {I O A B : Type}

/-- Steps of the target are those of the source, with another view of the outputs. -/
structure Simulation (source : Schedule m I O) (target : Schedule m I A) (view : O → A) where
  carry : source.State → target.State
  start : carry source.start = target.start
  step : ∀ state input,
    target.step (carry state) input = (·.bimap carry view) <$> source.step state input

def viewed (view : O → A) (entries : List (Entry O)) : List (Entry A) :=
  entries.map (Prod.map view id)

namespace Simulation

variable [LawfulMonad m] {source : Schedule m I O} {target : Schedule m I A} {view : O → A}

theorem runFrom (simulation : Simulation source target view) (inputs : List I)
    (state : source.State) :
    target.runFrom (simulation.carry state) inputs =
      viewed view <$> source.runFrom state inputs := by
  induction inputs generalizing state with
  | nil => simp only [Schedule.runFrom, map_pure, viewed, List.map_nil]
  | cons input inputs ih =>
      simp only [Schedule.runFrom, simulation.step, bind_map_left, map_bind]
      refine bind_congr fun decision => ?_
      cases decision with
      | done output =>
          simp only [Decision.bimap, map_pure, viewed, List.map_cons, List.map_nil, Prod.map_apply,
            id]
      | proceed output delay next =>
          simp only [Decision.bimap, ih, bind_map_left, map_bind, map_pure, viewed, List.map_cons,
            Prod.map_apply, id]

theorem run (simulation : Simulation source target view) (inputs : List I) :
    target.run inputs = viewed view <$> source.run inputs := by
  rw [Schedule.run, ← simulation.start]
  exact simulation.runFrom inputs source.start

theorem run_eq {target : Schedule m I O} (simulation : Simulation source target id)
    (inputs : List I) : target.run inputs = source.run inputs := by
  have plain : (viewed id : List (Entry O) → List (Entry O)) = id := by
    funext entries
    exact List.map_id entries
  rw [simulation.run, plain, id_map]

end Simulation
end Schedule
end Cadence
