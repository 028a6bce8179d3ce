import Cadence.Driver.Error
import Cadence.Driver.Report
import Cadence.Schedule
import Cadence.Work

/-!
Drivers: they repeat or retry an action under a schedule. Every attempt and every wait is raced
against a cancellation token, which is looked at first on each poll.
-/
namespace Cadence

inductive Severity where
  | fatal
  | recoverable
  deriving DecidableEq

/-- `cancelled` looks at the token, `sleep` asks for a wait, and `idle` lets time pass between two
polls. -/
structure Driver (m : Type → Type) (E : Type) where
  cancelled : m Bool
  sleep : Duration → m (Work m Unit)
  classify : E → m Severity
  log : Report → m Unit
  idle : Wake → m Unit

/-- An action that can be called `calls` times, each time by its number from one. -/
structure Action (m : Type → Type) (E T : Type) where
  calls : Nat
  call : Nat → m (Work m (Except E T))
  exhausted : Nat → m (Work m Empty)

inductive RepeatEnd (E O : Type) where
  | cancelled
  | fatal (error : E)
  | failed (error : E) (last : Option O)
  | completed (output : O)

inductive RetryEnd (E O T : Type) where
  | cancelled
  | fatal (error : E)
  | exhausted (attempts : Nat) (error : E) (output : O)
  | succeeded (value : T)

namespace Driver

variable {m : Type → Type} [Monad m] {E I O T A α : Type} (driver : Driver m E)

def ensureActive : m (Except Cancelled Unit) := do
  return if ← driver.cancelled then .error .cancelled else .ok ()

def race : Work m α → m (Option α)
  | .ready poll => do if ← driver.cancelled then return none else return some (← poll)
  | .pending poll rest => do
      if ← driver.cancelled then return none
      match ← poll with
      | .inr result => return some result
      | .inl wake =>
          driver.idle wake
          race rest

def attempt (made : Nat) (call : m (Work m α)) : m (Option α) := do
  if ← driver.cancelled then
    driver.log ⟨.cancelled, made⟩
    return none
  match ← driver.race (← call) with
  | some result => return some result
  | none =>
      driver.log ⟨.cancelled, made + 1⟩
      return none

/-- Whether the wait came to its end. A zero wait is over at once, whatever the token says. -/
def wait (made : Nat) (delay : Duration) : m Bool := do
  if delay.isZero then return true
  match ← driver.race (← driver.sleep delay) with
  | some () => return true
  | none =>
      driver.log ⟨.cancelled, made⟩
      return false

/-- Repeats while the schedule goes on with the results. `last` is the output before the wait that
came to its end last. Attempts are counted without a bound, here and in `retryFrom`: a run of 2^64
attempts is out of reach. -/
def repeatFrom (schedule : Schedule m I O) (action : Action m E I) :
    (remaining made : Nat) → schedule.State → (last : Option O) → m (RepeatEnd E O)
  | 0, made, _, _ => do
      match ← driver.attempt made (action.exhausted (made + 1)) with
      | none => return .cancelled
  | remaining + 1, made, state, last => do
      match ← driver.attempt made (action.call (made + 1)) with
      | none => return .cancelled
      | some (.error error) =>
          match ← driver.classify error with
          | .fatal =>
              driver.log ⟨.repeatFatal, made + 1⟩
              return .fatal error
          | .recoverable =>
              driver.log ⟨.repeatFailed, made + 1⟩
              return .failed error last
      | some (.ok input) =>
          match ← schedule.step state input with
          | .done output =>
              driver.log ⟨.repeatDone, made + 1⟩
              return .completed output
          | .proceed output delay next =>
              driver.log ⟨.repeatProceeding delay, made + 1⟩
              if ← driver.wait (made + 1) delay then
                repeatFrom schedule action remaining (made + 1) next (some output)
              else return .cancelled

def retryFrom (schedule : Schedule m E O) (action : Action m E T) :
    (remaining made : Nat) → schedule.State → m (RetryEnd E O T)
  | 0, made, _ => do
      match ← driver.attempt made (action.exhausted (made + 1)) with
      | none => return .cancelled
  | remaining + 1, made, state => do
      match ← driver.attempt made (action.call (made + 1)) with
      | none => return .cancelled
      | some (.ok value) =>
          if 0 < made then driver.log ⟨.retrySucceeded, made + 1⟩
          return .succeeded value
      | some (.error error) =>
          match ← driver.classify error with
          | .fatal =>
              driver.log ⟨.retryFatal, made + 1⟩
              return .fatal error
          | .recoverable =>
              match ← schedule.step state error with
              | .done output =>
                  driver.log ⟨.retryExhausted, made + 1⟩
                  return .exhausted (made + 1) error output
              | .proceed _ delay next =>
                  driver.log ⟨.retryProceeding delay, made + 1⟩
                  if ← driver.wait (made + 1) delay then
                    retryFrom schedule action remaining (made + 1) next
                  else return .cancelled

def repeatEnd (schedule : Schedule m I O) (action : Action m E I) : m (RepeatEnd E O) :=
  driver.repeatFrom schedule action action.calls 0 schedule.start none

def retryEnd (schedule : Schedule m E O) (action : Action m E T) : m (RetryEnd E O T) :=
  driver.retryFrom schedule action action.calls 0 schedule.start

def repeatUnder (schedule : Schedule m I O) (action : Action m E I) :
    m (Except (RunError E) O) := do
  match ← driver.repeatEnd schedule action with
  | .cancelled => return .error .cancelled
  | .fatal error => return .error (.fatal error)
  | .failed error _ => return .error (.inner error)
  | .completed output => return .ok output

def repeatOrElseEither (schedule : Schedule m I O) (action : Action m E I)
    (fallback : E → Option O → m A) : m (Except (RunError E) (A ⊕ O)) := do
  match ← driver.repeatEnd schedule action with
  | .cancelled => return .error .cancelled
  | .fatal error => return .error (.fatal error)
  | .failed error last => return .ok (.inl (← fallback error last))
  | .completed output => return .ok (.inr output)

def merge : α ⊕ α → α := Sum.elim id id

def repeatOrElse (schedule : Schedule m I O) (action : Action m E I)
    (fallback : E → Option O → m O) : m (Except (RunError E) O) := do
  return (← driver.repeatOrElseEither schedule action fallback).map merge

def retryUnder (schedule : Schedule m E O) (action : Action m E T) :
    m (Except (RunError E) T) := do
  match ← driver.retryEnd schedule action with
  | .cancelled => return .error .cancelled
  | .fatal error => return .error (.fatal error)
  | .exhausted attempts error _ => return .error (.exhausted attempts error)
  | .succeeded value => return .ok value

def retryOrElseEither (schedule : Schedule m E O) (action : Action m E T)
    (fallback : E → O → m A) : m (Except (RunError E) (A ⊕ T)) := do
  match ← driver.retryEnd schedule action with
  | .cancelled => return .error .cancelled
  | .fatal error => return .error (.fatal error)
  | .exhausted _ error output => return .ok (.inl (← fallback error output))
  | .succeeded value => return .ok (.inr value)

def retryOrElse (schedule : Schedule m E O) (action : Action m E T)
    (fallback : E → O → m T) : m (Except (RunError E) T) := do
  return (← driver.retryOrElseEither schedule action fallback).map merge

end Driver
end Cadence
