import Cadence.Session
import Cadence.Work

/-!
The clock of a session. It counts milliseconds, stands still while anything can run, and then jumps
to the next moment at which something can.
-/
namespace Cadence

def Duration.ceilMillis (delay : Duration) : Nat := (delay.nanos + 999999) / 1000000

namespace Session

def moment? (clock : Nat) : Wake → Option Nat
  | .now => some clock
  | .after delay => some (clock + delay.ceilMillis)
  | .never => none

def expireTimer (horizon : Nat) (moment : Option Nat) : Effect Unit := do
  let session ← get
  match session.timer with
  | none => return
  | some (due, token) =>
      if due ≤ session.clock || (due < horizon && moment.all (due < ·)) then
        set { session with
          clock := max session.clock due
          timer := none
          cancelled := token :: session.cancelled }

def stall (horizon : Nat) : Effect Unit := do
  modify fun session => { session with clock := horizon }
  throw .stalled

def jump (horizon : Nat) : (moment : Option Nat) → Effect Unit
  | some moment =>
      if moment ≤ horizon then modify fun session => { session with clock := moment }
      else stall horizon
  | none => stall horizon

/-- Passes the time until the wake, or until the token is cancelled if that is before. A timer that
is due goes first, for what is not finished gives way to it. Work not finished at the horizon, and
work that has nothing to wake it before, does not go on any more. -/
def idle (token : Token) (horizon : Nat) (wake : Wake) : Effect Unit := do
  if horizon ≤ (← get).clock then stall horizon
  if ← isCancelled token then return
  let moment := moment? (← get).clock wake
  expireTimer horizon moment
  if ← isCancelled token then return
  jump horizon moment

end Session
end Cadence
