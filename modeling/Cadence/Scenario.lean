import Cadence.Driver
import Cadence.Recipe
import Cadence.Session.Clock
import Cadence.Session.Sleeper

namespace Cadence

inductive CancelPoint where
  | onCall
  | onPoll
  deriving DecidableEq

structure Attempt where
  result : Except Value Value
  cancels : Option CancelPoint := none
  sleep : Duration := .zero
  endless : Bool := false
  yields : Nat := 0
  fault : Option String := none
  times : Nat := 1

namespace Attempt

def finish (attempt : Attempt) (number : Nat) : Effect (Except Value Value) := do
  Session.emit (.finish number)
  match attempt.fault with
  | some message => throw (.raised message)
  | none => return attempt.result

def body (attempt : Attempt) (token : Token) (number : Nat) : Work Effect (Except Value Value) :=
  let first : Effect Unit :=
    if attempt.cancels = some .onPoll then Session.cancel token else pure ()
  if attempt.endless then .endless first
  else match attempt.yields with
    | 0 => .ready (do first; attempt.finish number)
    | yields + 1 =>
        .pending (do first; return .inl .now) (.yielding yields (.ready (attempt.finish number)))

def call (attempt : Attempt) (token : Token) (number : Nat) :
    Effect (Work Effect (Except Value Value)) := do
  if attempt.cancels = some .onCall then Session.cancel token
  return .sleeping attempt.sleep (attempt.body token number)

def calls : (script : List Attempt) → Nat
  | [] => 0
  | attempt :: script => attempt.times + calls script

def find? : (script : List Attempt) → (index : Nat) → Option Attempt
  | [], _ => none
  | attempt :: script, index =>
      if index < attempt.times then some attempt else find? script (index - attempt.times)

end Attempt

def scriptedAction (script : List Attempt) (token : Token) : Action Effect Value Value where
  calls := Attempt.calls script
  call number := do
    Session.emit (.attempt number)
    match Attempt.find? script (number - 1) with
    | some attempt => attempt.call token number
    | none => throw .scriptExhausted
  exhausted number := do
    Session.emit (.attempt number)
    throw .scriptExhausted

inductive Fallback where
  | pair
  | error
  | last
  | const (value : Value)
  | fault (message : String)

def Fallback.run (error last : Value) (fallback : Fallback) : Effect Value := do
  Session.emit (.fallback error last)
  match fallback with
  | pair => return .list [error, last]
  | .error => return error
  | .last => return last
  | const value => return value
  | fault message => throw (.raised message)

def severity (fatalIf : Condition) (error : Value) : Severity :=
  if fatalIf.meets error then .fatal else .recoverable

/-- Without a condition every error is recoverable, and no classification is recorded. -/
def classifier : Option Condition → Value → Effect Severity
  | none, _ => pure .recoverable
  | some fatalIf, error => do
      Session.emit (.classify error)
      return severity fatalIf error

inductive Method where
  | repeatUnder
  | repeatOrElse
  | repeatOrElseEither
  | retryUnder
  | retryOrElse
  | retryOrElseEither
  deriving DecidableEq

def Method.perform (driver : Driver Effect Value) (schedule : ValueSchedule)
    (action : Action Effect Value Value) (fallback : Fallback) :
    Method → Effect (Except (RunError Value) Value)
  | repeatUnder => driver.repeatUnder schedule action
  | repeatOrElse =>
      driver.repeatOrElse schedule action fun error last =>
        fallback.run error (.ofOption last)
  | repeatOrElseEither => do
      let result ← driver.repeatOrElseEither schedule action fun error last =>
        fallback.run error (.ofOption last)
      return result.map .ofSum
  | retryUnder => driver.retryUnder schedule action
  | retryOrElse => driver.retryOrElse schedule action fun error last => fallback.run error last
  | retryOrElseEither => do
      let result ← driver.retryOrElseEither schedule action fun error last =>
        fallback.run error last
      return result.map .ofSum

inductive TokenRole where
  | own
  | cancelled
  | child
  deriving DecidableEq

namespace Scenario

def parentToken : Token := .root 0
def ownToken : Token := .root 1
def defaultToken : Token := .root 2

end Scenario

def TokenRole.token : TokenRole → Token
  | own | cancelled => Scenario.ownToken
  | child => Scenario.parentToken.child 0

inductive CancelBefore where
  | driver
  | parent
  deriving DecidableEq

/-- One run. With `viaSchedule` the driver is the default one, which shares nothing with the others. -/
structure Run where
  method : Method
  recipe : Recipe
  script : List Attempt
  fallback : Fallback := .pair
  viaSchedule : Bool := false
  cancelBefore : Option CancelBefore := none
  cancelAt : Option Duration := none

structure Scenario where
  sleeper : Sleeper
  role : TokenRole
  fatalIf : Option Condition

structure RunRecord where
  outcome : Except Fault (Except (RunError Value) Value)
  events : List Event
  elapsedMillis : Nat
  active : Bool

namespace Scenario

def patienceMillis : Nat := 30 * 24 * 60 * 60 * 1000

def makeDriver (sleeper : Sleeper) (token : Token) (fatalIf : Option Condition) (horizon : Nat) :
    Driver Effect Value where
  cancelled := Session.isCancelled token
  sleep delay := sleeper.request token delay
  classify := classifier fatalIf
  log report := Session.emit (.report report)
  idle := Session.idle token horizon

def driver (scenario : Scenario) (viaSchedule : Bool) (horizon : Nat) : Driver Effect Value :=
  if viaSchedule then makeDriver .unrecorded defaultToken none horizon
  else makeDriver scenario.sleeper scenario.role.token scenario.fatalIf horizon

def cancelledBefore (token : Token) : Option CancelBefore → List Token
  | none => []
  | some .driver => [token]
  | some .parent => [parentToken]

def prepare (scenario : Scenario) (run : Run) (session : Session) : Session :=
  let token := scenario.role.token
  { session.forget with
    cancelled := cancelledBefore token run.cancelBefore ++ session.cancelled
    timer := run.cancelAt.map fun delay => (session.clock + delay.ceilMillis, token) }

def perform (scenario : Scenario) (run : Run) (schedule : ValueSchedule) (session : Session) :
    RunRecord × Session :=
  let token := scenario.role.token
  let horizon := session.clock + patienceMillis
  let driver := scenario.driver run.viaSchedule horizon
  let action := scriptedAction run.script token
  let finished := run.method.perform driver schedule action run.fallback
    (scenario.prepare run session)
  let (outcome, after) : Except Fault (Except (RunError Value) Value) × Session :=
    match finished with
    | .ok result after => (.ok result, after)
    | .error fault after => (.error fault, after)
  let elapsed := match outcome with
    | .ok _ | .error .stalled => after.clock - session.clock
    | .error _ => 0
  (⟨outcome, after.events, elapsed, !token.isCancelled after.cancelled⟩,
    { after.forget with timer := none })

def performAll (scenario : Scenario) : List Run → List ValueSchedule → Session →
    List RunRecord × Session
  | run :: runs, schedule :: schedules, session =>
      let (record, session) := scenario.perform run schedule session
      let (records, session) := scenario.performAll runs schedules session
      (record :: records, session)
  | _, _, session => ([], session)

def opening (scenario : Scenario) (sources : List Source) : Session :=
  { sources := sources
    cancelled := if scenario.role = .cancelled then [scenario.role.token] else [] }

def play (scenario : Scenario) (definitions : List (String × Recipe)) (runs : List Run) :
    Except RecipeError (List RunRecord × Session) :=
  match Recipe.buildAllWith definitions (runs.map (·.recipe)) with
  | .error cause => .error cause
  | .ok (schedules, sources) =>
      .ok (scenario.performAll runs schedules (scenario.opening sources))

end Scenario
end Cadence
