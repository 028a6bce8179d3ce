import Cadence.Schedule.Combine
import Cadence.Schedule.Transform

namespace Cadence.Schedule

def standardRetries : Nat := 3
def standardBase : Duration := .millis 100
def standardCap : Duration := .seconds 10

variable {m : Type → Type} [Monad m] {I : Type}

def backoffRetry (curve : Backoff) (retries : Nat) : Schedule m I Nat :=
  (recurs retries).zipLeft (backoff curve)

def exponentialRetry [MonadExcept Fault m] (base : Duration) (retries : Nat) (draw : m UInt64) :
    Schedule m I Nat :=
  (backoffRetry (.exponential base) retries).withJitter .full draw

def cappedExponentialRetry (base cap : Duration) (retries : Nat) :
    Except BackoffError (Schedule m I Nat) :=
  match (Backoff.exponential base).withMax cap with
  | .error cause => .error cause
  | .ok curve => .ok (backoffRetry curve retries)

def linearRetry (base : Duration) (retries : Nat) : Schedule m I Nat :=
  backoffRetry (.linear base) retries

def fixedRetry (delay : Duration) (retries : Nat) : Schedule m I Nat :=
  (recurs retries).zipLeft (spaced delay)

/-- The capped curve of `standardRetry`; the cap is not below the base. -/
def standardCurve : Backoff := { Backoff.exponential standardBase with cap := some standardCap }

theorem withMax_standardCap :
    (Backoff.exponential standardBase).withMax standardCap = .ok standardCurve := rfl

def standardRetry [MonadExcept Fault m] (draw : m UInt64) : Schedule m I Nat :=
  (backoffRetry standardCurve standardRetries).withJitter .full draw

def poll (interval : Duration) : Schedule m I Nat := spaced interval

end Cadence.Schedule
