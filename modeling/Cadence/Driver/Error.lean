namespace Cadence

inductive Cancelled where
  | cancelled
  deriving DecidableEq

def Cancelled.text : Cancelled → String
  | cancelled => "cancelled"

inductive RunError (E : Type) where
  | cancelled
  | fatal (error : E)
  | inner (error : E)
  | exhausted (attempts : Nat) (error : E)
  deriving DecidableEq

namespace RunError

variable {E : Type}

def ofCancelled : Cancelled → RunError E
  | .cancelled => cancelled

def isCancelled : RunError E → Bool
  | cancelled => true
  | _ => false

def isFatal : RunError E → Bool
  | fatal _ => true
  | _ => false

def isExhausted : RunError E → Bool
  | exhausted .. => true
  | _ => false

def attempts? : RunError E → Option Nat
  | exhausted attempts _ => some attempts
  | _ => none

def inner? : RunError E → Option E
  | cancelled => none
  | fatal error | inner error | exhausted _ error => some error

def text (display : E → String) : RunError E → String
  | cancelled => "schedule driver cancelled"
  | fatal error => "fatal error: " ++ display error
  | inner error => display error
  | exhausted attempts error =>
      "retry exhausted after " ++ toString attempts ++ " attempts; last error: " ++ display error

end RunError
end Cadence
