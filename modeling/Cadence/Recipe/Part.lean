import Cadence.Schedule.Preset
import Cadence.Schedule.Script

/-!
The parts of schedules described as data: primitives, modifiers of one schedule, joints of two. Each
says which schedule it stands for; outputs of any type become values.
-/
namespace Cadence

inductive RecipeError where
  | backoff (cause : BackoffError)
  | factors (cause : FactorError)
  | unknownName (name : String)
  deriving DecidableEq

def RecipeError.message : RecipeError → String
  | backoff cause => cause.message
  | factors cause => cause.message
  | unknownName name => "no schedule named " ++ name

abbrev ValueSchedule := Schedule Effect Value Value

namespace Schedule

def counting (schedule : Schedule Effect Value Nat) : ValueSchedule :=
  schedule.map fun count => pure (.int count)

def timing (schedule : Schedule Effect Value Duration) : ValueSchedule :=
  schedule.map fun delay => pure (.duration delay)

def listing (schedule : Schedule Effect Value (List Value)) : ValueSchedule :=
  schedule.map fun outputs => pure (.list outputs)

end Schedule

def Backoff.withCaps (curve : Curve) (caps : List Duration) : Except BackoffError Backoff :=
  caps.foldlM Backoff.withMax ⟨curve, none⟩

inductive Primitive where
  | identity
  | spaced (delay : Duration)
  | recurs (limit : Nat)
  | forever
  | unfold (initial : Value) (advance : Change)
  | backoff (curve : Curve) (caps : List Duration)
  | recurWhile (keep : Test)
  | recurUntil (stop : Test)
  | collectInputs
  | exponentialRetry (base : Duration) (retries : Nat)
  | cappedExponentialRetry (base cap : Duration) (retries : Nat)
  | linearRetry (base : Duration) (retries : Nat)
  | fixedRetry (delay : Duration) (retries : Nat)
  | standardRetry
  | poll (interval : Duration)
  | script (first : Cue) (rest : List Cue)

open Schedule in
def Primitive.build : Primitive → Except RecipeError ValueSchedule
  | identity => .ok .identity
  | spaced delay => .ok (Schedule.spaced delay).counting
  | recurs limit => .ok (Schedule.recurs limit).counting
  | forever => .ok Schedule.forever.counting
  | unfold initial advance => .ok (.unfold initial advance.run)
  | backoff curve caps =>
      match Backoff.withCaps curve caps with
      | .error cause => .error (.backoff cause)
      | .ok capped => .ok (Schedule.backoff capped).timing
  | recurWhile keep => .ok (.recurWhile fun input output => keep.run input output)
  | recurUntil stop => .ok (.recurUntil fun input output => stop.run input output)
  | collectInputs => .ok Schedule.collectInputs.listing
  | exponentialRetry base retries =>
      .ok (Schedule.exponentialRetry base retries Session.drawAmbient).counting
  | cappedExponentialRetry base cap retries =>
      match Schedule.cappedExponentialRetry base cap retries with
      | .error cause => .error (.backoff cause)
      | .ok schedule => .ok schedule.counting
  | linearRetry base retries => .ok (Schedule.linearRetry base retries).counting
  | fixedRetry delay retries => .ok (Schedule.fixedRetry delay retries).counting
  | standardRetry => .ok (Schedule.standardRetry Session.drawAmbient).counting
  | poll interval => .ok (Schedule.poll interval).counting
  | script first rest => .ok (.script first rest)

inductive JitterChoice where
  | none
  | full
  | equal
  | range (low high : Binary64)

def JitterChoice.build : JitterChoice → Except FactorError Jitter
  | none => .ok .none
  | full => .ok .full
  | equal => .ok .equal
  | range low high => .range <$> FactorRange.between low high

inductive Modifier where
  | map (change : Change)
  | doWhile (keep : Test)
  | doUntil (stop : Test)
  | observe (tag : String)
  | delayed (adjust : Adjust)
  | jittered (low high : Binary64)
  | withJitter (jitter : JitterChoice)
  | fold (seed : Value) (gather : Gather)
  | collect

def Modifier.build (schedule : ValueSchedule) : Modifier → Except RecipeError ValueSchedule
  | map change => .ok (schedule.map change.run)
  | doWhile keep => .ok (schedule.doWhile fun input output => keep.run input output)
  | doUntil stop => .ok (schedule.doUntil fun input output => stop.run input output)
  | observe tag =>
      .ok (schedule.observe fun input output => Session.trace tag [.value input, .value output])
  | delayed adjust => .ok (schedule.delayed fun output delay => adjust.run output delay)
  | jittered low high => .ok (schedule.jittered low high Session.drawAmbient)
  | withJitter choice =>
      match choice.build with
      | .error cause => .error (.factors cause)
      | .ok jitter => .ok (schedule.withJitter jitter Session.drawAmbient)
  | fold seed gather => .ok (schedule.fold seed fun gathered output => gather.run gathered output)
  | collect => .ok schedule.collect.listing

inductive Joint where
  | and
  | andWith (join : Join)
  | andWithDelay (join : Join) (joinDelay : DelayJoin)
  | or
  | orWith (join : Join)
  | orWithDelay (join : Join) (joinDelay : DelayJoin)
  | zipLeft
  | zipRight
  | andThen
  | andThenWith (first second : Change)
  | pipe

/-- A join sees an absent output as null and one that is there as a some. -/
def Join.runOptional (join : Join) (a b : Option Value) : Effect Value :=
  join.run (.ofOption a) (.ofOption b)

def Joint.build (left right : ValueSchedule) : Joint → ValueSchedule
  | and => (left.and right).map fun (a, b) => pure (.list [a, b])
  | andWith join => left.andWith right fun a b => join.run a b
  | andWithDelay join joinDelay =>
      left.andWithDelay right (fun a b => join.run a b) fun a b => joinDelay.run a b
  | or => (left.or right).map fun (a, b) =>
      pure (.list [.ofOption a, .ofOption b])
  | orWith join => left.orWith right join.runOptional
  | orWithDelay join joinDelay =>
      left.orWithDelay right join.runOptional fun a b => joinDelay.run a b
  | zipLeft => left.zipLeft right
  | zipRight => left.zipRight right
  | andThen => (left.andThen right).map fun either => pure (.ofSum either)
  | andThenWith first second => left.andThenWith right first.run second.run
  | pipe => left.pipe right

end Cadence
