namespace Cadence

inductive Fault where
  | raised (message : String)
  | sourceFailed
  | rangeTooWide
  | scriptExhausted
  | stalled
  deriving DecidableEq

def Fault.text : Fault → String
  | raised message => message
  | sourceFailed => "random source failed"
  | rangeTooWide => "called `Result::unwrap()` on an `Err` value: NonFinite"
  | scriptExhausted => "script exhausted"
  | stalled => "stalled"

end Cadence
