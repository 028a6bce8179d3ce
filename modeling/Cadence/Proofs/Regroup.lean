import Cadence.Proofs.Lockstep
import Cadence.Proofs.Simulation
import Cadence.Schedule.Primitive
import Cadence.Session

/-!
Three schedules in lockstep, grouped to the left and to the right. Both groupings step the parts in
the same order on the same things, so they only differ in how states and outputs are nested. With
the identity as unit, `pipe` makes a category of schedules.
-/
namespace Cadence

variable {m : Type → Type} [Monad m] {I J K O A B X Y P Q : Type}

def Decision.both {S T : Type} (join : O → A → B) (joinDelay : Duration → Duration → Duration) :
    Decision S O → Decision T A → Decision (S × T) B
  | proceed output delay next, proceed output' delay' next' =>
      proceed (join output output') (joinDelay delay delay') (next, next')
  | ours, theirs => done (join ours.output theirs.output)

theorem Decision.output_both {S T : Type} (join : O → A → B)
    (joinDelay : Duration → Duration → Duration) (ours : Decision S O) (theirs : Decision T A) :
    (ours.both join joinDelay theirs).output = join ours.output theirs.output := by
  cases ours <;> cases theirs <;> rfl

theorem Decision.both_assoc {S T U : Type} {joinDelay : Duration → Duration → Duration}
    (associative : ∀ d d' d'', joinDelay (joinDelay d d') d'' = joinDelay d (joinDelay d' d''))
    {inLeft : O → A → X} {outLeft : X → B → P} {inRight : A → B → Y} {outRight : O → Y → Q}
    {view : P → Q} (joins : ∀ o a b, view (outLeft (inLeft o a) b) = outRight o (inRight a b))
    (first : Decision S O) (second : Decision T A) (third : Decision U B) :
    ((first.both inLeft joinDelay second).both outLeft joinDelay third).bimap
        (fun ((s, t), u) => (s, (t, u))) view =
      first.both outRight joinDelay (second.both inRight joinDelay third) := by
  cases first <;> cases second <;> cases third <;>
    simp only [both, bimap, output, joins, associative]

theorem Decision.proceed_both {S T : Type} (input : I) (state : S) (theirs : Decision T O) :
    (proceed input .zero state).both (fun _ output => output) (· + ·) theirs =
      theirs.bimap (fun next => (state, next)) id := by
  cases theirs <;> simp only [both, bimap, Decision.output, id, Duration.zero_add]

theorem Decision.both_proceed {S T : Type} (ours : Decision S O) (state : T) :
    ours.both (fun _ output => output) (· + ·) (proceed ours.output .zero state) =
      ours.bimap (fun next => (next, state)) id := by
  cases ours <;> simp only [both, bimap, Decision.output, id, Duration.add_zero]

namespace Schedule

variable [LawfulMonad m]

abbrev inStep (left : Schedule m I O) (right : Schedule m J A) (feed : I → O → J) (join : O → A → B)
    (joinDelay : Duration → Duration → Duration) : Schedule m I B where
  State := left.State × right.State
  start := (left.start, right.start)
  step
    | (state, state'), input => do
        let ours ← left.step state input
        let theirs ← right.step state' (feed input ours.output)
        return ours.both join joinDelay theirs

/-- Groupings that feed the third part the same, and join the three outputs to the same. -/
def inStepAssoc (a : Schedule m I O) (b : Schedule m J A) (c : Schedule m K B) {feed : I → O → J}
    {feedLast : I → X → K} {feedInner : J → A → K} {inLeft : O → A → X} {outLeft : X → B → P}
    {inRight : A → B → Y} {outRight : O → Y → Q} {view : P → Q}
    {joinDelay : Duration → Duration → Duration}
    (feeds : ∀ i o x, feedLast i (inLeft o x) = feedInner (feed i o) x)
    (joins : ∀ o x y, view (outLeft (inLeft o x) y) = outRight o (inRight x y))
    (associative : ∀ d d' d'', joinDelay (joinDelay d d') d'' = joinDelay d (joinDelay d' d'')) :
    Simulation ((a.inStep b feed inLeft joinDelay).inStep c feedLast outLeft joinDelay)
      (a.inStep (b.inStep c feedInner inRight joinDelay) feed outRight joinDelay) view where
  carry := fun ((s, t), u) => (s, (t, u))
  start := rfl
  step := by
    rintro ⟨⟨s, t⟩, u⟩ input
    simp only [bind_assoc, pure_bind, map_bind, map_pure, Decision.output_both, feeds,
      Decision.both_assoc associative joins]

omit [LawfulMonad m] in
theorem pipe_step (left : Schedule m I O) (right : Schedule m O A) (state : left.State)
    (state' : right.State) (input : I) :
    (left.pipe right).step (state, state') input = (do
      let ours ← left.step state input
      let theirs ← right.step state' ours.output
      return ours.both (fun _ output => output) (· + ·) theirs) := by
  refine bind_congr fun ours => bind_congr fun theirs => ?_
  cases ours <;> cases theirs <;> rfl

omit [LawfulMonad m] in
theorem pipe_eq_inStep (left : Schedule m I O) (right : Schedule m O A) :
    left.pipe right =
      left.inStep right (fun _ output => output) (fun _ output => output) (· + ·) := by
  rw [pipe, inStep]
  congr 1
  funext states input
  exact left.pipe_step right states.1 states.2 input

theorem and_eq_inStep (left : Schedule m I O) (right : Schedule m I A) :
    left.and right = left.inStep right (fun input _ => input) Prod.mk max := by
  simp only [Schedule.and, andWith, andWithDelay, inStep, pure_bind]
  congr 1
  funext states input
  refine bind_congr fun ours => bind_congr fun theirs => ?_
  cases ours <;> cases theirs <;> rfl

def identityPipe (a : Schedule m I O) : Simulation a (identity.pipe a) id where
  carry state := ((), state)
  start := rfl
  step state input := by
    calc
      _ = (do
          let theirs ← a.step state input
          return (Decision.proceed input .zero ()).both (fun _ output => output) (· + ·) theirs) :=
        (identity.pipe_step a () state input).trans (pure_bind ..)
      _ = (do
          let theirs ← a.step state input
          return theirs.bimap (fun next => ((), next)) id) :=
        bind_congr fun theirs => congrArg pure (Decision.proceed_both input () theirs)
      _ = _ := bind_pure_comp ..

def pipeIdentity (a : Schedule m I O) : Simulation a (a.pipe identity) id where
  carry state := (state, ())
  start := rfl
  step state input := by
    calc
      _ = (do
          let ours ← a.step state input
          return ours.both (fun _ output => output) (· + ·)
            (Decision.proceed ours.output .zero ())) :=
        (a.pipe_step identity state () input).trans (bind_congr fun _ => pure_bind ..)
      _ = (do
          let ours ← a.step state input
          return ours.bimap (fun next => (next, ())) id) :=
        bind_congr fun ours => congrArg pure (Decision.both_proceed ours ())
      _ = _ := bind_pure_comp ..

theorem pipe_run_regroup (a : Schedule m I O) (b : Schedule m O A) (c : Schedule m A B)
    (inputs : List I) : (a.pipe (b.pipe c)).run inputs = ((a.pipe b).pipe c).run inputs := by
  simp only [pipe_eq_inStep]
  refine Simulation.run_eq ?_ inputs
  exact inStepAssoc a b c (fun _ _ _ => rfl) (fun _ _ _ => rfl) Duration.add_assoc

/-- Schedules are a category: `pipe` is associative, with the identity as unit on either side. This
holds of runs whatever steps do. A step that breaks off breaks off every grouping in the same place,
after the same effects, and what was shown before is the run on fewer inputs. -/
theorem pipe_forms_category (a : Schedule m I O) (b : Schedule m O A) (c : Schedule m A B)
    (inputs : List I) :
    ((a.pipe b).pipe c).run inputs = (a.pipe (b.pipe c)).run inputs ∧
    (identity.pipe a).run inputs = a.run inputs ∧
    (a.pipe identity).run inputs = a.run inputs :=
  ⟨(a.pipe_run_regroup b c inputs).symm, a.identityPipe.run_eq inputs,
    a.pipeIdentity.run_eq inputs⟩

theorem pipe_forms_category_breaks :
    let first : Schedule Effect Unit Nat := (recurs 3).acting fun _ _ => Session.trace "first" []
    let second : Schedule Effect Nat Nat :=
      (spaced .longest).acting fun _ _ => Session.trace "second" []
    let third : Schedule Effect Nat Nat := (spaced (.seconds 1)).acting fun (count : Nat) _ =>
      if count = 1 then throw (.raised "third") else Session.trace "third" []
    ((first.pipe second).pipe third).run [(), (), ()] =
        (first.pipe (second.pipe third)).run [(), (), ()] ∧
      (identity.pipe first).run [(), (), ()] = first.run [(), (), ()] ∧
      (first.pipe identity).run [(), (), ()] = first.run [(), (), ()] :=
  pipe_forms_category _ _ _ [(), (), ()]

end Schedule
end Cadence
