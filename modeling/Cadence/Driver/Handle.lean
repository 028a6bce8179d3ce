import Cadence.Driver.Error
import Cadence.Token

namespace Cadence

inductive HandleSleeper where
  | clock
  | instant
  deriving DecidableEq

def HandleSleeper.text : HandleSleeper → String
  | clock => "TokioSleeper"
  | instant => "InstantSleeper"

structure Handle where
  sleeper : HandleSleeper
  token : Token
  deriving DecidableEq

namespace Handle

def ensureActive (handle : Handle) (cancelled : List Token) : Except Cancelled Unit :=
  if handle.token.isCancelled cancelled then .error .cancelled else .ok ()

def render (handle : Handle) (cancelled : List Token) : String :=
  "Driver \x7b sleeper: " ++ handle.sleeper.text ++
    ", cancelled: " ++ toString (handle.token.isCancelled cancelled) ++
    ", classifier: \"<classifier>\" \x7d"

end Handle
end Cadence
