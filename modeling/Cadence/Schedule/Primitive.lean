import Cadence.Backoff
import Cadence.Schedule

namespace Cadence

/-- Counts stop at the largest 64-bit number. -/
def nextCount (count : Nat) : Nat := min (count + 1) (UInt64.size - 1)

namespace Schedule

variable {m : Type → Type} [Monad m] {I O : Type}

def identity : Schedule m I I where
  State := Unit
  start := ()
  step _ input := pure (.proceed input .zero ())

def spaced (delay : Duration) : Schedule m I Nat where
  State := Nat
  start := 0
  step count _ := pure (.proceed count delay (nextCount count))

def recurs (limit : Nat) : Schedule m I Nat where
  State := Nat
  start := 0
  step count _ := pure (if count < limit then .proceed count .zero (count + 1) else .done count)

def unfold (initial : O) (advance : O → m O) : Schedule m I O where
  State := Option O
  start := none
  step
    | none, _ => pure (.proceed initial .zero (some initial))
    | some last, _ => do
        let output ← advance last
        return .proceed output .zero (some output)

def forever : Schedule m I Nat := unfold 0 fun count => pure (nextCount count)

def backoff (curve : Backoff) : Schedule m I Duration where
  State := Nat
  start := 0
  step index _ := pure (.proceed (curve.delay index) (curve.delay index) (nextCount index))

def linear (base : Duration) : Schedule m I Duration := backoff (.linear base)
def exponential (base : Duration) : Schedule m I Duration := backoff (.exponential base)
def exponentialBy (base : Duration) (factor : Binary64) : Schedule m I Duration :=
  backoff (.exponentialBy base factor)
def fibonacci (base : Duration) : Schedule m I Duration := backoff (.fibonacci base)

end Schedule
end Cadence
