import Cadence.Decision

/-!
Schedules: machines that answer each input with a decision. A continuation is a state of the
machine, so it can be stepped any number of times. Steps act in a monad `m`, which holds the effects
of the closures that a schedule is made from.
-/
namespace Cadence

structure Schedule (m : Type → Type) (I O : Type) where
  State : Type
  start : State
  step : State → I → m (Decision State O)

namespace Schedule

variable {m : Type → Type} {I O : Type}

def render (_ : Schedule m I O) : String := "Schedule \x7b step: \"<step>\" \x7d"

/-- An output, and the delay after it unless it is the last. -/
abbrev Entry (O : Type) := O × Option Duration

def runFrom [Monad m] (schedule : Schedule m I O) : schedule.State → List I → m (List (Entry O))
  | _, [] => pure []
  | state, input :: inputs => do
      match ← schedule.step state input with
      | .done output => return [(output, none)]
      | .proceed output delay next => return (output, some delay) :: (← schedule.runFrom next inputs)

def run [Monad m] (schedule : Schedule m I O) (inputs : List I) : m (List (Entry O)) :=
  schedule.runFrom schedule.start inputs

end Schedule
end Cadence
