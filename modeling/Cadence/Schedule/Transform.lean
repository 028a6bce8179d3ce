import Cadence.Jitter
import Cadence.Schedule.Primitive

/-!
Schedules made from one other schedule. Each closure is called once per step that it concerns, after
the inner step, and its effects are those of the step.
-/
namespace Cadence.Schedule

variable {m : Type → Type} [Monad m] {I O A : Type}

def map (schedule : Schedule m I O) (f : O → m A) : Schedule m I A where
  State := schedule.State
  start := schedule.start
  step state input := do
    match ← schedule.step state input with
    | .done output => return .done (← f output)
    | .proceed output delay next => return .proceed (← f output) delay next

def doWhile (schedule : Schedule m I O) (keep : I → O → m Bool) : Schedule m I O where
  State := schedule.State
  start := schedule.start
  step state input := do
    match ← schedule.step state input with
    | .done output => return .done output
    | .proceed output delay next =>
        if ← keep input output then return .proceed output delay next else return .done output

def doUntil (schedule : Schedule m I O) (stop : I → O → m Bool) : Schedule m I O :=
  schedule.doWhile fun input output => do return !(← stop input output)

def observe (schedule : Schedule m I O) (action : I → O → m Unit) : Schedule m I O :=
  schedule.doWhile fun input output => do
    action input output
    return true

def delayed (schedule : Schedule m I O) (adjust : O → Duration → m Duration) :
    Schedule m I O where
  State := schedule.State
  start := schedule.start
  step state input := do
    match ← schedule.step state input with
    | .done output => return .done output
    | .proceed output delay next => return .proceed output (← adjust output delay) next

/-- Multiplies every delay, a zero one too, by a factor from `draw`. No lock stands around the source:
one that is poisoned by a draw that broke off is taken all the same. -/
def jittered [MonadExcept Fault m] (schedule : Schedule m I O) (low high : Binary64)
    (draw : m UInt64) : Schedule m I O :=
  schedule.delayed fun _ delay => do return delay.scale (← Random.factor draw low high)

def withJitter [MonadExcept Fault m] (schedule : Schedule m I O) (jitter : Jitter)
    (draw : m UInt64) : Schedule m I O :=
  schedule.delayed fun _ delay => jitter.apply draw delay

def fold (schedule : Schedule m I O) (seed : A) (f : A → O → m A) : Schedule m I A where
  State := A × schedule.State
  start := (seed, schedule.start)
  step
    | (folded, state), input => do
        match ← schedule.step state input with
        | .done _ => return .done folded
        | .proceed output delay next =>
            let refolded ← f folded output
            return .proceed refolded delay (refolded, next)

def collect (schedule : Schedule m I O) : Schedule m I (List O) :=
  schedule.fold [] fun outputs output => pure (outputs ++ [output])

/-- Passes every decision through `f`, which may keep the continuation, end the schedule, or go on
along a `Track` of its own. On a track the schedule is left behind and `f` is not called. -/
def mapDecision (schedule : Schedule m I O) (Track : Type)
    (follow : Track → I → m (Decision Track O))
    (f : Decision schedule.State O → m (Decision (schedule.State ⊕ Track) O)) :
    Schedule m I O where
  State := schedule.State ⊕ Track
  start := .inl schedule.start
  step
    | .inl state, input => do f (← schedule.step state input)
    | .inr track, input => do return (← follow track input).redirect .inr

def recurWhile (keep : I → I → m Bool) : Schedule m I I := identity.doWhile keep
def recurUntil (stop : I → I → m Bool) : Schedule m I I := identity.doUntil stop
def collectInputs : Schedule m I (List I) := identity.collect

end Cadence.Schedule
