import Cadence.Recipe.Part

namespace Cadence

structure Detour where
  Track : Type
  follow : Track → Value → Effect (Decision Track Value)
  apply : {κ : Type} → Decision κ Value → Effect (Decision (κ ⊕ Track) Value)

namespace Detour

def within (revise : {κ : Type} → Decision κ Value → Effect (Decision κ Value)) : Detour where
  Track := Empty
  follow := nofun
  apply decision := do return (← revise decision).redirect .inl

def keep : Detour := within pure

def doneIf (condition : Condition) : Detour := within fun
  | .proceed output delay next =>
      pure (if condition.meets output then .done output else .proceed output delay next)
  | done => pure done

def setDelay (delay : Duration) : Detour := within fun
  | .proceed output _ next => pure (.proceed output delay next)
  | done => pure done

def mapOutput (change : Change) : Detour := within fun
  | .proceed output delay next => do return .proceed (← change.run output) delay next
  | .done output => do return .done (← change.run output)

/-- An end that meets the condition goes on for one more step, which reports `last`. -/
def revive (condition : Condition) (delay : Duration) (last : Value) : Detour where
  Track := Unit
  follow _ _ := pure (.done last)
  apply
    | .done output =>
        pure (if condition.meets output then .proceed output delay (.inr ()) else .done output)
    | proceed => pure (proceed.redirect .inl)

def jump (condition : Condition) (target : ValueSchedule) : Detour where
  Track := target.State
  follow := target.step
  apply
    | .proceed output delay next =>
        pure (.proceed output delay
          (if condition.meets output then .inr target.start else .inl next))
    | .done output => pure (.done output)

def regroup {α β γ : Type} : (α ⊕ β) ⊕ γ → α ⊕ (β ⊕ γ)
  | .inl (.inl a) => .inl a
  | .inl (.inr b) => .inr (.inl b)
  | .inr c => .inr (.inr c)

def andThen (first second : Detour) : Detour where
  Track := first.Track ⊕ second.Track
  follow
    | .inl track, input => do return (← first.follow track input).redirect .inl
    | .inr track, input => do return (← second.follow track input).redirect .inr
  apply decision := do
    let revised ← first.apply decision
    return (← second.apply revised).redirect regroup

def arguments {κ : Type} : Decision κ Value → List Argument
  | .done output => [.value (.text "done"), .value output, .delay none]
  | .proceed output delay _ => [.value (.text "continue"), .value output, .delay delay]

def traced (tag : String) (detour : Detour) : Detour :=
  { detour with
    apply := fun decision => do
      Session.trace tag (arguments decision)
      detour.apply decision }

end Detour

def Schedule.detoured (schedule : ValueSchedule) (detour : Detour) : ValueSchedule :=
  schedule.mapDecision detour.Track detour.follow detour.apply

end Cadence
