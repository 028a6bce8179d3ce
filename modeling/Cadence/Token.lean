/-!
Cancellation tokens. A token is named by the path from its root; cancelling one cancels all below it.
-/
namespace Cadence

structure Token where
  path : List Nat
  deriving DecidableEq

namespace Token

def root (number : Nat) : Token := ⟨[number]⟩

def child (parent : Token) (number : Nat) : Token := ⟨number :: parent.path⟩

def isCancelled (cancelled : List Token) (token : Token) : Bool :=
  cancelled.any fun above => above.path.isSuffixOf token.path

end Token
end Cadence
