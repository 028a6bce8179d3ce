import Cadence.Session
import Cadence.Work

namespace Cadence

/-- How a wait that cancels goes on: never, at once, or on the poll that cancels. -/
inductive CancelMode where
  | endless
  | ready
  | late
  deriving DecidableEq

inductive Sleeper where
  | unrecorded
  | clock
  | instant
  | tracking
  | cancelling (turn : Nat) (mode : CancelMode)
  deriving DecidableEq

def Work.endless {α : Type} (poll : Effect Unit) : Work Effect α :=
  .pending (do poll; return .inl .never) (.ready (throw .stalled))

namespace Sleeper

def afterDelay (delay : Duration) : Work Effect Unit := .sleeping delay (.ready (pure ()))

def cancellingWork (token : Token) : CancelMode → Effect (Work Effect Unit)
  | .endless => do
      Session.cancel token
      return .endless (pure ())
  | .ready => do
      Session.cancel token
      return .ready (pure ())
  | .late => pure (.ready (Session.cancel token))

def request (token : Token) (delay : Duration) : Sleeper → Effect (Work Effect Unit)
  | unrecorded => pure (afterDelay delay)
  | clock => do
      Session.emit (.sleep delay)
      return afterDelay delay
  | instant => do
      Session.emit (.sleep delay)
      return .ready (pure ())
  | tracking => do
      Session.emit (.sleep delay)
      modify fun session => { session with log := session.log.record delay }
      return .ready (pure ())
  | cancelling turn mode => do
      Session.emit (.sleep delay)
      modify fun session => { session with requests := session.requests + 1 }
      if (← get).requests = turn then cancellingWork token mode else return .ready (pure ())

end Sleeper
end Cadence
