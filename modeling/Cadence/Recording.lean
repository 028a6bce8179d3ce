import Cadence.Recipe

namespace Cadence

structure Recorded (κ : Type) where
  outcome : Except Fault (Decision κ Value)
  events : List Event

namespace Schedule

variable (schedule : ValueSchedule)

def recordStep (state : schedule.State) (input : Value) (session : Session) :
    Recorded schedule.State × Session :=
  match schedule.step state input session.forget with
  | .ok decision after => (⟨.ok decision, after.events⟩, after.forget)
  | .error fault after => (⟨.error fault, after.events⟩, after.forget)

/-- Takes at most `budget` steps, on the inputs from `index` in turn and round again. The records
come latest first, before those in `earlier`. -/
def recordSteps (inputs : Array Value) : (budget index : Nat) → schedule.State → Session →
    (earlier : List (Recorded schedule.State)) → List (Recorded schedule.State) × Session
  | 0, _, _, session, earlier => (earlier, session)
  | budget + 1, index, state, session, earlier =>
      match inputs[index % inputs.size]? with
      | none => (earlier, session)
      | some input =>
          let (recorded, session) := schedule.recordStep state input session
          match recorded.outcome with
          | .ok (.proceed _ _ next) =>
              recordSteps inputs budget (index + 1) next session (recorded :: earlier)
          | _ => (recorded :: earlier, session)

def recordRun (inputs : List Value) (times : Nat) (session : Session) :
    List (Recorded schedule.State) × Session :=
  let (latestFirst, session) :=
    schedule.recordSteps inputs.toArray (times * inputs.length) 0 schedule.start session []
  (latestFirst.reverse, session)

def recordRuns (inputs : List Value) (times : Nat) : (runs : Nat) → Session →
    List (List (Recorded schedule.State))
  | 0, _ => []
  | runs + 1, session =>
      let (recorded, session) := schedule.recordRun inputs times session
      recorded :: recordRuns inputs times runs session

/-- Calls numbered continuations, of which the start is the first. A call that goes on adds one to
`nodes` and shows its number; a number that is not there yet is no call. -/
def walk : List (Nat × Value) → (nodes : Array schedule.State) → Session →
    List (Option (Recorded Nat))
  | [], _, _ => []
  | (node, input) :: calls, nodes, session =>
      match nodes[node]? with
      | none => none :: walk calls nodes session
      | some state =>
          let (⟨outcome, events⟩, session) := schedule.recordStep state input session
          let grown := match outcome with
            | .ok (.proceed _ _ next) => nodes.push next
            | _ => nodes
          let shown := outcome.map fun decision => decision.redirect fun _ => nodes.size
          some ⟨shown, events⟩ :: walk calls grown session

end Schedule
end Cadence
