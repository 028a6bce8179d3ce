import Cadence.Driver.Report
import Cadence.Random
import Cadence.Token
import Cadence.Value
import Cadence.WaitLog

/-!
A session: what closures, actions and sleepers leave behind and find again. An effect that breaks off
keeps what it did to the session before.
-/
namespace Cadence

inductive Argument where
  | value (value : Value)
  | delay (delay : Option Duration)
  deriving DecidableEq

inductive Event where
  | called (tag : String) (arguments : List Argument)
  | attempt (number : Nat)
  | finish (number : Nat)
  | sleep (delay : Duration)
  | classify (error : Value)
  | fallback (error last : Value)
  | report (report : Report)
  deriving DecidableEq

/-- `ambient` is drawn from by what has no source of its own. `timer` is a moment of the clock, in
milliseconds, and the token that is cancelled then. -/
structure Session where
  latestFirst : List Event := []
  sources : List Source := []
  ambient : Source := .seeded 0
  cancelled : List Token := []
  clock : Nat := 0
  timer : Option (Nat × Token) := none
  requests : Nat := 0
  log : WaitLog := {}
  deriving DecidableEq

abbrev Effect := EStateM Fault Session

namespace Session

def events (session : Session) : List Event := session.latestFirst.reverse

def forget (session : Session) : Session := { session with latestFirst := [] }

def emit (event : Event) : Effect Unit :=
  modify fun session => { session with latestFirst := event :: session.latestFirst }

def trace (tag : String) (arguments : List Argument) : Effect Unit :=
  emit (.called tag arguments)

/-- The next word of a numbered source. Whoever knows the number draws from the same tape, also after
a draw that broke off. -/
def draw (number : Nat) : Effect UInt64 := do
  let session ← get
  let (word, source) := (session.sources.getD number (.ofList [])).draw
  set { session with sources := session.sources.set number source }
  MonadExcept.ofExcept word

def drawAmbient : Effect UInt64 := do
  let session ← get
  let (word, source) := session.ambient.draw
  set { session with ambient := source }
  MonadExcept.ofExcept word

def cancel (token : Token) : Effect Unit :=
  modify fun session => { session with cancelled := token :: session.cancelled }

def isCancelled (token : Token) : Effect Bool := do
  return token.isCancelled (← get).cancelled

end Session
end Cadence
