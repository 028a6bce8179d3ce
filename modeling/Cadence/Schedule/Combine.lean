import Cadence.Schedule

/-!
Schedules made from two others. The receiver is stepped before the argument.
-/
namespace Cadence.Schedule

variable {m : Type → Type} [Monad m] {I O A B : Type}

def andWithDelay (left : Schedule m I O) (right : Schedule m I A) (join : O → A → m B)
    (joinDelay : Duration → Duration → m Duration) : Schedule m I B where
  State := left.State × right.State
  start := (left.start, right.start)
  step
    | (leftState, rightState), input => do
        let ours ← left.step leftState input
        let theirs ← right.step rightState input
        let output ← join ours.output theirs.output
        match ours, theirs with
        | .proceed _ delay next, .proceed _ delay' next' =>
            return .proceed output (← joinDelay delay delay') (next, next')
        | _, _ => return .done output

def andWith (left : Schedule m I O) (right : Schedule m I A) (join : O → A → m B) :
    Schedule m I B :=
  left.andWithDelay right join fun a b => pure (max a b)

def and (left : Schedule m I O) (right : Schedule m I A) : Schedule m I (O × A) :=
  left.andWith right fun a b => pure (a, b)

def zipLeft (left : Schedule m I O) (right : Schedule m I A) : Schedule m I O :=
  left.andWith right fun a _ => pure a

def zipRight (left : Schedule m I O) (right : Schedule m I A) : Schedule m I A :=
  left.andWith right fun _ b => pure b

def stepLive (schedule : Schedule m I O) (input : I) :
    Option schedule.State → m (Option (Decision schedule.State O))
  | none => pure none
  | some state => some <$> schedule.step state input

/-- Steps both on the same input until both are done. A side that was done before adds neither an
output nor a delay, and one that is done on this step no delay. -/
def orWithDelay (left : Schedule m I O) (right : Schedule m I A)
    (join : Option O → Option A → m B)
    (joinDelay : Option Duration → Option Duration → m Duration) : Schedule m I B where
  State := Option left.State × Option right.State
  start := (some left.start, some right.start)
  step
    | (leftState, rightState), input => do
        let ours ← left.stepLive input leftState
        let theirs ← right.stepLive input rightState
        let output ← join (ours.map (·.output)) (theirs.map (·.output))
        match ours.bind (·.next?), theirs.bind (·.next?) with
        | none, none => return .done output
        | next, next' =>
            let delay ← joinDelay (ours.bind (·.delay?)) (theirs.bind (·.delay?))
            return .proceed output delay (next, next')

def orWith (left : Schedule m I O) (right : Schedule m I A)
    (join : Option O → Option A → m B) : Schedule m I B :=
  left.orWithDelay right join fun a b => pure (Duration.merge min a b)

def or (left : Schedule m I O) (right : Schedule m I A) : Schedule m I (Option O × Option A) :=
  left.orWith right fun a b => pure (a, b)

def pipe (left : Schedule m I O) (right : Schedule m O A) : Schedule m I A where
  State := left.State × right.State
  start := (left.start, right.start)
  step
    | (leftState, rightState), input => do
        let ours ← left.step leftState input
        let theirs ← right.step rightState ours.output
        match ours, theirs with
        | .proceed _ delay next, .proceed output delay' next' =>
            return .proceed output (delay + delay') (next, next')
        | _, _ => return .done theirs.output

inductive Relay (S T I : Type) where
  | first (state : S)
  | handOver (completing : I)
  | second (state : T)

/-- Runs the one to its end and then the other. The last step of the one goes on without delay; the
step after it ignores its own input and gives the other the input that completed the one. -/
def andThenWith (left : Schedule m I O) (right : Schedule m I A) (first : O → m B)
    (second : A → m B) : Schedule m I B :=
  let enter (state : right.State) (input : I) :
      m (Decision (Relay left.State right.State I) B) := do
    match ← right.step state input with
    | .done output => return .done (← second output)
    | .proceed output delay next => return .proceed (← second output) delay (.second next)
  { State := Relay left.State right.State I
    start := .first left.start
    step
      | .first state, input => do
          match ← left.step state input with
          | .done output => return .proceed (← first output) .zero (.handOver input)
          | .proceed output delay next => return .proceed (← first output) delay (.first next)
      | .handOver completing, _ => enter right.start completing
      | .second state, input => enter state input }

def andThen (left : Schedule m I O) (right : Schedule m I A) : Schedule m I (O ⊕ A) :=
  left.andThenWith right (fun output => pure (.inl output)) fun output => pure (.inr output)

end Cadence.Schedule
