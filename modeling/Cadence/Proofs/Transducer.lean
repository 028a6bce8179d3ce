import Cadence.Proofs.Simulation
import Cadence.Proofs.Visit
import Cadence.Schedule.Transform

/-!
Schedules whose steps pass through a transducer. It makes an entry of each step, right after it, and
may end the run where the schedule itself goes on; where that is done it cannot go on. Two
transducers in turn are one that passes the entry on.
-/
namespace Cadence

open Schedule (Entry)

variable {m : Type → Type} [Monad m] {S I O A B : Type}

/-- What is made of the output of the last step, and of that and the delay of any other. -/
@[ext] structure Transducer (m : Type → Type) (I O A : Type) where
  last : O → m A
  ongoing : I → O → Duration → m (Entry A)

namespace Transducer

def turn (transducer : Transducer m I O A) (input : I) : Entry O → m (Entry A)
  | (output, none) => do return (← transducer.last output, none)
  | (output, some delay) => transducer.ongoing input output delay

def compose (first : Transducer m I O A) (second : Transducer m I A B) : Transducer m I O B where
  last output := do second.last (← first.last output)
  ongoing input output delay := do second.turn input (← first.ongoing input output delay)

def mapping (f : O → m A) : Transducer m I O A where
  last := f
  ongoing _ output delay := do return (← f output, some delay)

def delaying (adjust : O → Duration → m Duration) : Transducer m I O O where
  last := pure
  ongoing _ output delay := do return (output, some (← adjust output delay))

def holding (keep : I → O → m Bool) : Transducer m I O O where
  last := pure
  ongoing input output delay := do return (output, if ← keep input output then some delay else none)

def noting (action : I → O → m Unit) : Transducer m I O O where
  last := pure
  ongoing input output delay := do
    action input output
    return (output, some delay)

section Compose

variable [LawfulMonad m]

theorem compose_mapping (f : O → m A) (g : A → m B) :
    (mapping f : Transducer m I O A).compose (mapping g) =
      mapping fun output => f output >>= g := by
  ext input output delay
  · rfl
  · simp [compose, mapping, turn]

theorem compose_delaying (adjust next : O → Duration → m Duration) :
    (delaying adjust : Transducer m I O O).compose (delaying next) =
      delaying fun output delay => adjust output delay >>= next output := by
  ext input output delay
  · simp [compose, delaying]
  · simp [compose, delaying, turn]

theorem compose_holding (keep further : I → O → m Bool) :
    (holding keep).compose (holding further) =
      holding fun input output => do
        if ← keep input output then further input output else return false := by
  ext input output delay
  · simp [compose, holding]
  · simp only [compose, holding, bind_assoc, pure_bind]
    refine bind_congr fun kept => ?_
    cases kept <;> simp [turn]

theorem holding_true (action : I → O → m Unit) :
    holding (fun input output => do action input output; return true) = noting action := by
  ext input output delay
  · rfl
  · simp [holding, noting]

end Compose

end Transducer

open Transducer

namespace Schedule

abbrev transduced (schedule : Schedule m I O) (transducer : Transducer m I O A) :
    Schedule m I A where
  State := schedule.State
  start := schedule.start
  step state input := do
    match ← schedule.step state input with
    | .done output => return .done (← transducer.last output)
    | .proceed output delay next =>
        match ← transducer.ongoing input output delay with
        | (shown, none) => return .done shown
        | (shown, some wait) => return .proceed shown wait next

/-- Steps through the inputs, with a turn after each step. The run ends with the first turn that does
not go on. -/
def runFromThrough (schedule : Schedule m I O) (transducer : Transducer m I O A) :
    schedule.State → List I → m (List (Entry A))
  | _, [] => pure []
  | state, input :: inputs => do
      let decision ← schedule.step state input
      let shown ← transducer.turn input (decision.output, decision.delay?)
      match shown.2, decision.next? with
      | some _, some next => return shown :: (← schedule.runFromThrough transducer next inputs)
      | _, _ => return [shown]

def runThrough (schedule : Schedule m I O) (transducer : Transducer m I O A) (inputs : List I) :
    m (List (Entry A)) :=
  schedule.runFromThrough transducer schedule.start inputs

variable [LawfulMonad m] (schedule : Schedule m I O)

theorem transduced_runFrom (transducer : Transducer m I O A) (inputs : List I)
    (state : schedule.State) :
    (schedule.transduced transducer).runFrom state inputs =
      schedule.runFromThrough transducer state inputs := by
  induction inputs generalizing state with
  | nil => rfl
  | cons input inputs ih =>
      simp only [runFrom, runFromThrough, bind_assoc]
      refine bind_congr fun decision => ?_
      cases decision with
      | done output => simp [turn]
      | proceed output delay next =>
          simp only [Decision.output_proceed, Decision.delay?_proceed, Decision.next?_proceed, turn,
            bind_assoc]
          refine bind_congr fun shown => ?_
          rcases shown with ⟨shown, _ | wait⟩
          · simp
          · simp [ih]

theorem transduced_run (transducer : Transducer m I O A) (inputs : List I) :
    (schedule.transduced transducer).run inputs = schedule.runThrough transducer inputs :=
  schedule.transduced_runFrom transducer inputs schedule.start

theorem transduced_transduced (first : Transducer m I O A) (second : Transducer m I A B) :
    (schedule.transduced first).transduced second =
      schedule.transduced (first.compose second) := by
  rw [transduced, transduced, transduced]
  congr 1
  funext state input
  simp only [bind_assoc]
  refine bind_congr fun decision => ?_
  cases decision with
  | done output => simp [compose]
  | proceed output delay next =>
      simp only [compose, bind_assoc]
      refine bind_congr fun shown => ?_
      rcases shown with ⟨shown, _ | wait⟩
      · simp [turn]
      · simp [turn]

section Combinators

theorem map_eq_transduced (f : O → m A) : schedule.map f = schedule.transduced (mapping f) := by
  rw [map, transduced]
  congr 1
  funext state input
  refine bind_congr fun decision => ?_
  cases decision <;> simp [mapping]

theorem delayed_eq_transduced (adjust : O → Duration → m Duration) :
    schedule.delayed adjust = schedule.transduced (delaying adjust) := by
  rw [delayed, transduced]
  congr 1
  funext state input
  refine bind_congr fun decision => ?_
  cases decision <;> simp [delaying]

theorem doWhile_eq_transduced (keep : I → O → m Bool) :
    schedule.doWhile keep = schedule.transduced (holding keep) := by
  rw [doWhile, transduced]
  congr 1
  funext state input
  refine bind_congr fun decision => ?_
  cases decision with
  | done output => simp [holding]
  | proceed output delay next =>
      simp only [holding, bind_assoc, pure_bind]
      refine bind_congr fun kept => ?_
      cases kept <;> rfl

theorem observe_eq_transduced (action : I → O → m Unit) :
    schedule.observe action = schedule.transduced (noting action) := by
  rw [observe, doWhile_eq_transduced, holding_true]

end Combinators
end Schedule
end Cadence
