import Cadence.Closure
import Cadence.Schedule

namespace Cadence

/-- An absent output stands for the input of the step. -/
inductive Move where
  | proceed (output : Option Value) (delay : Duration)
  | done (output : Option Value)
  | fault (message : String)

structure Cue where
  tag : Option String
  move : Move

namespace Schedule

def script (first : Cue) (rest : List Cue) : Schedule Effect Value Value where
  State := Cue × List Cue
  start := (first, rest)
  step
    | (cue, rest), input => do
        if let some tag := cue.tag then Session.trace tag [.value input]
        match cue.move with
        | .fault message => throw (.raised message)
        | .done output => return .done (output.getD input)
        | .proceed output delay =>
            let next := match rest with
              | [] => (cue, [])
              | upcoming :: rest => (upcoming, rest)
            return .proceed (output.getD input) delay next

end Schedule
end Cadence
