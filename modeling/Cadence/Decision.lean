import Cadence.Duration

namespace Cadence

inductive Decision (κ O : Type) where
  | done (output : O)
  | proceed (output : O) (delay : Duration) (next : κ)

namespace Decision

variable {κ ι O : Type}

def output : Decision κ O → O
  | done output => output
  | proceed output _ _ => output

def delay? : Decision κ O → Option Duration
  | done _ => none
  | proceed _ delay _ => some delay

def next? : Decision κ O → Option κ
  | done _ => none
  | proceed _ _ next => some next

def isDone : Decision κ O → Bool
  | done _ => true
  | proceed .. => false

section Cases

variable (output : O) (delay : Duration) (next : κ)

@[simp] theorem output_done : (done output : Decision κ O).output = output := rfl

@[simp] theorem output_proceed : (proceed output delay next).output = output := rfl

@[simp] theorem delay?_done : (done output : Decision κ O).delay? = none := rfl

@[simp] theorem delay?_proceed : (proceed output delay next).delay? = some delay := rfl

@[simp] theorem next?_done : (done output : Decision κ O).next? = none := rfl

@[simp] theorem next?_proceed : (proceed output delay next).next? = some next := rfl

end Cases

def redirect (route : κ → ι) : Decision κ O → Decision ι O
  | done output => done output
  | proceed output delay next => proceed output delay (route next)

def render (display : O → String) : Decision κ O → String
  | done output => "Done(" ++ display output ++ ")"
  | proceed output delay _ =>
      "Continue \x7b output: " ++ display output ++ ", delay: " ++ delay.text ++
        ", next: \"<step>\" \x7d"

end Decision
end Cadence
