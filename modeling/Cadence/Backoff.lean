import Cadence.Binary64
import Cadence.Wide

namespace Cadence

open Binary64 in
/-- A duration times a double, rounded to whole nanoseconds with halves away from zero. A factor
that is not positive gives zero, and a product out of range the longest duration. -/
def Duration.scale (base : Duration) (factor : Binary64) : Duration :=
  if base.isZero || !(signedZero false).lt factor then .zero
  else
    let product := ofNat base.nanos * factor
    match product with
    | .finite _ units _ =>
        if (ofNat maxNanos).le product then .longest
        else ofWide (.ofNat ((units + one / 2) / one))
    | _ => .longest

inductive Curve where
  | constant (delay : Duration)
  | linear (base : Duration)
  | exponential (base : Duration) (factor : Binary64)
  | fibonacci (base : Duration)
  deriving DecidableEq

/-- `unit` times the Fibonacci number `steps` places after `current`, given up at the first product
that reaches the longest duration. -/
def climb (unit : Wide) : (steps : Nat) → (current following : Wide) → Duration
  | 0, current, _ => .ofWide (min (unit * current) Duration.longest.wide)
  | steps + 1, current, following =>
      if Duration.longest.wide ≤ unit * current then .longest
      else climb unit steps following (current + following)

namespace Curve

def base : Curve → Duration
  | constant base | linear base | exponential base _ | fibonacci base => base

def maxExponent : Nat := 2147483647

def delay (step : Nat) : Curve → Duration
  | constant base => base
  | linear base =>
      match base.wide.times? (.ofNat (step + 1)) with
      | some nanos => .ofWide nanos
      | none => .longest
  | exponential base factor => base.scale (factor.pow (min step maxExponent))
  | fibonacci base =>
      if base.isZero then .zero else climb base.wide step (.ofNat 1) (.ofNat 2)

end Curve

structure Backoff where
  curve : Curve
  cap : Option Duration := none
  deriving DecidableEq

inductive BackoffError where
  | capOnConstant
  | capNotPositive
  | capBelowBase (base cap : Duration)
  deriving DecidableEq

def BackoffError.message : BackoffError → String
  | capOnConstant => "with_max is only valid for growing backoff curves"
  | capNotPositive => "max must be greater than zero"
  | capBelowBase base cap => "max (" ++ cap.text ++ ") must be >= base (" ++ base.text ++ ")"

namespace Backoff

def constant (delay : Duration) : Backoff := ⟨.constant delay, none⟩
def linear (base : Duration) : Backoff := ⟨.linear base, none⟩
def exponentialBy (base : Duration) (factor : Binary64) : Backoff := ⟨.exponential base factor, none⟩
def exponential (base : Duration) : Backoff := exponentialBy base (.ofNat 2)
def fibonacci (base : Duration) : Backoff := ⟨.fibonacci base, none⟩

/-- Replaces the cap; a growing curve takes any cap that is positive and not below its base. -/
def withMax (backoff : Backoff) (cap : Duration) : Except BackoffError Backoff :=
  if cap.isZero then .error .capNotPositive
  else match backoff.curve with
    | .constant _ => .error .capOnConstant
    | curve =>
        if cap < curve.base then .error (.capBelowBase curve.base cap)
        else .ok { backoff with cap := some cap }

def delay (backoff : Backoff) (step : Nat) : Duration :=
  match backoff.cap with
  | none => backoff.curve.delay step
  | some cap => min (backoff.curve.delay step) cap

end Backoff
end Cadence
