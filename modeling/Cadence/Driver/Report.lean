import Cadence.Duration

namespace Cadence

inductive Level where
  | error
  | warn
  | info
  | debug
  deriving DecidableEq

def Level.text : Level → String
  | error => "ERROR"
  | warn => "WARN"
  | info => "INFO"
  | debug => "DEBUG"

inductive Notice where
  | cancelled
  | repeatFatal
  | repeatFailed
  | repeatDone
  | repeatProceeding (delay : Duration)
  | retryFatal
  | retrySucceeded
  | retryProceeding (delay : Duration)
  | retryExhausted
  deriving DecidableEq

namespace Notice

def level : Notice → Level
  | cancelled => .info
  | repeatFatal | retryFatal => .error
  | retryExhausted => .warn
  | repeatFailed | repeatDone | repeatProceeding _ | retrySucceeded | retryProceeding _ => .debug

def message : Notice → String
  | cancelled => "schedule driver cancelled"
  | repeatFatal => "repeat aborted by fatal error"
  | repeatFailed => "repeat block failed; using fallback"
  | repeatDone => "repeat schedule done"
  | repeatProceeding _ => "repeat schedule continuing"
  | retryFatal => "retry aborted by fatal error"
  | retrySucceeded => "retry succeeded"
  | retryProceeding _ => "retrying after failure"
  | retryExhausted => "retry schedule exhausted"

def delay? : Notice → Option Duration
  | repeatProceeding delay | retryProceeding delay => some delay
  | _ => none

end Notice

structure Report where
  notice : Notice
  attempts : Nat
  deriving DecidableEq

end Cadence
