import Cadence.Duration

namespace Cadence

inductive Wake where
  | now
  | after (delay : Duration)
  | never
  deriving DecidableEq

/-- The last poll gives the result; one before it either does so already or says when to poll the
rest. -/
inductive Work (m : Type → Type) (α : Type) where
  | ready (poll : m α)
  | pending (poll : m (Wake ⊕ α)) (rest : Work m α)

namespace Work

variable {m : Type → Type} [Monad m] {α : Type}

def yielding : (times : Nat) → Work m α → Work m α
  | 0, work => work
  | times + 1, work => .pending (pure (.inl .now)) (yielding times work)

def sleeping (delay : Duration) (work : Work m α) : Work m α :=
  if delay.isZero then work else .pending (pure (.inl (.after delay))) work

end Work
end Cadence
