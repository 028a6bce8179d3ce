import Cadence.Backoff
import Cadence.Binary64.Shortest
import Cadence.Random

namespace Cadence

structure FactorRange where
  low : Binary64
  high : Binary64
  low_finite : low.isFinite
  high_finite : high.isFinite
  low_nonneg : low.lt (.ofNat 0) = false
  high_nonneg : high.lt (.ofNat 0) = false
  ordered : high.lt low = false

inductive FactorError where
  | notFinite (low high : Binary64)
  | negative (low high : Binary64)
  | inverted (low high : Binary64)
  deriving DecidableEq

def FactorError.message : FactorError → String
  | notFinite low high => "jitter factors must be finite (got " ++ low.text ++ ".." ++ high.text ++ ")"
  | negative low high =>
      "jitter factors must not be negative (got " ++ low.text ++ ".." ++ high.text ++ ")"
  | inverted low high => "jitter min (" ++ low.text ++ ") must not exceed max (" ++ high.text ++ ")"

def FactorRange.between (low high : Binary64) : Except FactorError FactorRange :=
  if finite : low.isFinite ∧ high.isFinite then
    if nonneg : low.lt (.ofNat 0) = false ∧ high.lt (.ofNat 0) = false then
      if ordered : high.lt low = false then
        .ok ⟨low, high, finite.1, finite.2, nonneg.1, nonneg.2, ordered⟩
      else .error (.inverted low high)
    else .error (.negative low high)
  else .error (.notFinite low high)

inductive Jitter where
  | none
  | full
  | equal
  | range (factors : FactorRange)

instance : Inhabited Jitter := ⟨.none⟩

/-- Full jitter picks from zero to the delay, equal jitter from its half; a zero delay needs no
choice. A range multiplies the delay by a factor. -/
def Jitter.apply {m : Type → Type} [Monad m] [MonadExcept Fault m] (draw : m UInt64)
    (delay : Duration) : Jitter → m Duration
  | none => pure delay
  | full =>
      if delay.isZero then pure .zero else Duration.ofNanos <$> Random.inclusive draw 0 delay.nanos
  | equal =>
      if delay.isZero then pure .zero
      else Duration.ofNanos <$> Random.inclusive draw (delay.nanos / 2) delay.nanos
  | range factors => delay.scale <$> Random.factor draw factors.low factors.high

def Jitter.series (jitter : Jitter) : List Duration → Source → List (Except Fault Duration × Nat)
  | [], _ => []
  | delay :: delays, source =>
      let (outcome, after) := (jitter.apply Drawing.word delay).run source
      (outcome, after.drawn - source.drawn) :: jitter.series delays after

end Cadence
