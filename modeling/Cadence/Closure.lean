import Cadence.Session

/-!
Closures described as data. Any of them may be traced, which records its arguments before it acts, or
may break off instead of acting.
-/
namespace Cadence

def clampInt (value : Int) : Int := max Int64.minValue.toInt (min value Int64.maxValue.toInt)

/-- A condition on a value; one of another type does not meet it. -/
inductive Condition where
  | const (holds : Bool)
  | equals (value : Value)
  | below (bound : Int)
  | atLeast (bound : Int)
  | shorterThan (bound : Duration)
  | contains (part : String)
  | fewerThan (bound : Nat)

def occursIn (part : List Char) : (whole : List Char) → Bool
  | [] => part.isEmpty
  | c :: rest => part.isPrefixOf (c :: rest) || occursIn part rest

def Condition.meets : Condition → Value → Bool
  | const holds, _ => holds
  | equals value, given => value = given
  | below bound, .int value => value < bound
  | atLeast bound, .int value => bound ≤ value
  | shorterThan bound, .duration value => value < bound
  | contains part, .text content => occursIn part.toList content.toList
  | fewerThan bound, .list items => items.length < bound
  | _, _ => false

inductive Test where
  | const (holds : Bool)
  | input (condition : Condition)
  | output (condition : Condition)
  | same
  | not (test : Test)
  | both (first second : Test)
  | either (first second : Test)
  | traced (tag : String) (test : Test)
  | fault (message : String)

def Test.run (input output : Value) : Test → Effect Bool
  | const holds => pure holds
  | .input condition => pure (condition.meets input)
  | .output condition => pure (condition.meets output)
  | same => pure (input = output)
  | .not test => do return !(← test.run input output)
  | both first second => do if ← first.run input output then second.run input output else return false
  | either first second => do
      if ← first.run input output then return true else second.run input output
  | traced tag test => do
      Session.trace tag [.value input, .value output]
      test.run input output
  | fault message => throw (.raised message)

inductive Change where
  | keep
  | display
  | length
  | wrap
  | flatten
  | add (addend : Int)
  | multiply (multiplier : Int)
  | const (value : Value)
  | andThen (first second : Change)
  | choose (condition : Condition) (met unmet : Change)
  | traced (tag : String) (change : Change)
  | fault (message : String)

def splice (items : List Value) : List Value :=
  items.flatMap fun
    | .list inner => inner
    | item => [item]

def Change.run : Change → Value → Effect Value
  | keep, value => pure value
  | display, value => pure (.text value.display)
  | length, .list items => pure (.int items.length)
  | length, .text content => pure (.int content.length)
  | length, _ => pure (.int 0)
  | wrap, value => pure (.list [value])
  | flatten, .list items => pure (.list (splice items))
  | flatten, value => pure value
  | add addend, .int value => pure (.int (clampInt (value + addend)))
  | add _, value => pure value
  | multiply multiplier, .int value => pure (.int (clampInt (value * multiplier)))
  | multiply _, value => pure value
  | const value, _ => pure value
  | andThen first second, value => do second.run (← first.run value)
  | choose condition met unmet, value =>
      if condition.meets value then met.run value else unmet.run value
  | traced tag change, value => do
      Session.trace tag [.value value]
      change.run value
  | fault message, _ => throw (.raised message)

inductive Adjust where
  | keep
  | output
  | const (delay : Duration)
  | add (delay : Duration)
  | multiply (count : Nat)
  | cap (longest : Duration)
  | perOutput (unit : Duration)
  | traced (tag : String) (adjust : Adjust)
  | fault (message : String)

def Adjust.run (shown : Value) (delay : Duration) : Adjust → Effect Duration
  | keep => pure delay
  | output => pure (match shown with | .duration own => own | _ => delay)
  | const fixed => pure fixed
  | add more => pure (delay + more)
  | multiply count => pure (delay.times count)
  | cap longest => pure (min delay longest)
  | perOutput unit =>
      pure (match shown with
        | .int value => if 0 ≤ value then unit.times value.toNat else delay
        | _ => delay)
  | traced tag adjust => do
      Session.trace tag [.value shown, .delay delay]
      adjust.run shown delay
  | fault message => throw (.raised message)

inductive Join where
  | left
  | right
  | pair
  | sum
  | traced (tag : String) (join : Join)
  | fault (message : String)

def Value.number? : Value → Option Int
  | .int value => Option.some value
  | .null => Option.some 0
  | .some value => value.number?
  | _ => none

def Join.run (a b : Value) : Join → Effect Value
  | left => pure a
  | right => pure b
  | pair => pure (.list [a, b])
  | sum =>
      pure (match a.number?, b.number? with
        | some x, some y => .int (clampInt (x + y))
        | _, _ => .list [a, b])
  | traced tag join => do
      Session.trace tag [.value a, .value b]
      join.run a b
  | fault message => throw (.raised message)

inductive DelayJoin where
  | longest
  | shortest
  | sum
  | left
  | right
  | const (delay : Duration)
  | traced (tag : String) (join : DelayJoin)
  | fault (message : String)

def DelayJoin.run (a b : Option Duration) : DelayJoin → Effect Duration
  | longest => pure (Duration.merge max a b)
  | shortest => pure (Duration.merge min a b)
  | sum => pure (Duration.merge (· + ·) a b)
  | left => pure (a.getD .zero)
  | right => pure (b.getD .zero)
  | const delay => pure delay
  | traced tag join => do
      Session.trace tag [.delay a, .delay b]
      join.run a b
  | fault message => throw (.raised message)

/-- A step of a fold; an accumulator of another type stays as it is. -/
inductive Gather where
  | sum
  | count
  | push
  | concat
  | last
  | traced (tag : String) (gather : Gather)
  | fault (message : String)

def Gather.run (gathered output : Value) : Gather → Effect Value
  | sum =>
      pure (match gathered, output with
        | .int total, .int value => .int (clampInt (total + value))
        | _, _ => gathered)
  | count => pure (match gathered with | .int total => .int (clampInt (total + 1)) | _ => gathered)
  | push => pure (match gathered with | .list items => .list (items ++ [output]) | _ => gathered)
  | concat =>
      pure (match gathered with | .text content => .text (content ++ output.display) | _ => gathered)
  | last => pure output
  | traced tag gather => do
      Session.trace tag [.value gathered, .value output]
      gather.run gathered output
  | fault message => throw (.raised message)

end Cadence
