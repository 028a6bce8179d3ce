import Cadence.Proofs.Conduct
import Cadence.Proofs.Trail
import Cadence.Schedule.Combine
import Cadence.Schedule.Transform

/-!
Schedules that share a numbered source. Clones of one jittered schedule draw from it; all else
leaves it alone. What is done through them is written as a program, which can be played, and watched
for the decisions that the clones make. The combinators act on programs as they act on effects.
-/
namespace Cadence

open Traced

/-- An effect that neither draws from a source nor replaces it. -/
def Spares (number : Nat) {α : Type} (effect : Effect α) : Prop :=
  ∀ session, (Session.perform effect session).2.sources[number]? = session.sources[number]?

def Schedule.Spares (number : Nat) {I O : Type} (schedule : Schedule Effect I O) : Prop :=
  ∀ state input, Cadence.Spares number (schedule.step state input)

def Schedule.hoist {m n : Type → Type} {I O : Type} (schedule : Schedule m I O)
    (view : ∀ {α : Type}, m α → n α) : Schedule n I O where
  State := schedule.State
  start := schedule.start
  step state input := view (schedule.step state input)

variable {J P : Type}

/-- What is done with clones of `inner`, jittered by the words of a source: a step of a clone, or
anything that spares the source. -/
inductive Shared (inner : Schedule Effect J P) (number : Nat) (α : Type) where
  | answer (value : α)
  | breakOff (fault : Fault)
  | act (after : Session → Session)
      (spares : ∀ session, (after session).sources[number]? = session.sources[number]?)
      (rest : Session → Shared inner number α)
  | clone (state : inner.State) (input : J)
      (rest : Decision inner.State P → Shared inner number α)

/-- A decision of `inner`, by its delay unless it is done, and what its clone made of that. -/
structure Deal where
  chosen : Option Duration
  made : Except Fault (Option Duration)

def jitteredDelay (low high : Binary64) (number : Nat) (delay : Duration) : Effect Duration := do
  return delay.scale (← Random.factor (Session.draw number) low high)

def watchedDelay (low high : Binary64) (number : Nat) (delay : Duration) :
    Traced Fault Session Deal Duration :=
  fun session =>
    match jitteredDelay low high number delay session with
    | .ok jittered after => ⟨.ok jittered, after, [⟨some delay, .ok (some jittered)⟩]⟩
    | .error fault after => ⟨.error fault, after, [⟨some delay, .error fault⟩]⟩

def watchedClone (inner : Schedule Effect J P) (low high : Binary64) (number : Nat)
    (state : inner.State) (input : J) :
    Traced Fault Session Deal (Decision inner.State P) := do
  match ← record (fun _ => []) (fun _ => []) (inner.step state input) with
  | .done output => record (fun _ => []) (fun _ => [⟨none, .ok none⟩]) (pure (.done output))
  | .proceed output delay next =>
      return .proceed output (← watchedDelay low high number delay) next

namespace Shared

variable {inner : Schedule Effect J P} {number : Nat} {α β : Type}

protected def bind : Shared inner number α → (α → Shared inner number β) → Shared inner number β
  | answer value, next => next value
  | breakOff fault, _ => breakOff fault
  | act after spares rest, next => act after spares fun session => (rest session).bind next
  | clone state input rest, next => clone state input fun decision => (rest decision).bind next

instance : Monad (Shared inner number) where
  pure := answer
  bind := Shared.bind

def lift (effect : Effect α) (spares : Spares number effect) : Shared inner number α :=
  .act (fun session => (Session.perform effect session).2) spares fun session =>
    match (Session.perform effect session).1 with
    | .ok value => .answer value
    | .error fault => .breakOff fault

def play (low high : Binary64) : Shared inner number α → Effect α
  | answer value => pure value
  | breakOff fault => throw fault
  | act after _ rest => fun session => (rest session).play low high (after session)
  | clone state input rest => do
      (rest (← (inner.jittered low high (Session.draw number)).step state input)).play low high

def watched (low high : Binary64) : Shared inner number α → Traced Fault Session Deal α
  | answer value => pure value
  | breakOff fault => fun session => ⟨.error fault, session, []⟩
  | act after _ rest => fun session => (rest session).watched low high (after session)
  | clone state input rest => do
      (rest (← watchedClone inner low high number state input)).watched low high

variable (low high : Binary64)

theorem erase_watchedDelay (delay : Duration) :
    (watchedDelay low high number delay).erase = jitteredDelay low high number delay := by
  funext session
  cases ran : jitteredDelay low high number delay session <;>
    simp only [erase, Trail.result, watchedDelay, ran]

theorem erase_watchedClone (state : inner.State) (input : J) :
    (watchedClone inner low high number state input).erase =
      (inner.jittered low high (Session.draw number)).step state input := by
  simp only [watchedClone, erase_bind, erase_record]
  apply bind_congr
  intro decision
  cases decision with
  | done output => rw [erase_record]
  | proceed output delay next =>
      rw [erase_bind, erase_watchedDelay]
      rfl

theorem erase_watched (program : Shared inner number α) :
    (program.watched low high).erase = program.play low high := by
  induction program with
  | answer value => rfl
  | breakOff fault => rfl
  | act after spares rest ih =>
      funext session
      exact congrFun (ih session) (after session)
  | clone state input rest ih =>
      rw [watched, erase_bind, erase_watchedClone, play]
      exact bind_congr ih

theorem play_bind (first : Shared inner number α) (next : α → Shared inner number β) :
    (first >>= next).play low high = first.play low high >>= fun value =>
      (next value).play low high := by
  induction first with
  | answer value => rfl
  | breakOff fault => rfl
  | act after spares rest ih =>
      funext session
      exact congrFun (ih session) (after session)
  | clone state input rest ih =>
      change (clone state input fun decision => (rest decision).bind next).play low high = _
      rw [play, play, bind_assoc]
      exact bind_congr ih

theorem play_lift (effect : Effect α) (spares : Spares number effect) :
    (lift effect spares : Shared inner number α).play low high = effect := by
  funext session
  cases ran : effect session <;> simp only [lift, play, Session.perform, ran] <;> rfl

theorem play_map (f : α → β) (program : Shared inner number α) :
    (f <$> program).play low high = f <$> program.play low high := by
  have bound := play_bind low high program fun value => pure (f value)
  exact bound.trans (bind_pure_comp f (program.play low high))

theorem play_congr_of {program : Shared inner number α} {shown : Effect α}
    (shows : program.play low high = shown) {next : α → Shared inner number β}
    {played : α → Effect β} (same : ∀ value, (next value).play low high = played value) :
    (program >>= next).play low high = shown >>= played := by
  rw [play_bind, shows]
  exact bind_congr same

theorem play_congr (program : Shared inner number α) {next : α → Shared inner number β}
    {played : α → Effect β} (same : ∀ value, (next value).play low high = played value) :
    (program >>= next).play low high = program.play low high >>= played :=
  play_congr_of low high rfl same

end Shared

namespace Schedule

variable {inner : Schedule Effect J P} {number : Nat} {I O A B : Type} (low high : Binary64)

def cloned (inner : Schedule Effect J P) (number : Nat) : Schedule (Shared inner number) J P where
  State := inner.State
  start := inner.start
  step state input := .clone state input .answer

def lifted (schedule : Schedule Effect I O) (spares : schedule.Spares number) :
    Schedule (Shared inner number) I O where
  State := schedule.State
  start := schedule.start
  step state input := .lift (schedule.step state input) (spares state input)

theorem same_steps {m : Type → Type} {State : Type} {start : State}
    {first second : State → I → m (Decision State O)}
    (same : ∀ state input, first state input = second state input) :
    (⟨State, start, first⟩ : Schedule m I O) = ⟨State, start, second⟩ := by
  have steps : first = second := by
    funext state input
    exact same state input
  rw [steps]

theorem hoist_cloned :
    (cloned inner number).hoist (Shared.play low high) =
      inner.jittered low high (Session.draw number) := by
  apply same_steps
  intro state input
  exact bind_pure ((inner.jittered low high (Session.draw number)).step state input)

theorem hoist_lifted (schedule : Schedule Effect I O) (spares : schedule.Spares number) :
    (lifted schedule spares : Schedule (Shared inner number) I O).hoist (Shared.play low high) =
      schedule := by
  apply same_steps
  intro state input
  exact Shared.play_lift low high _ _

theorem hoist_unfold (initial : O) (advance : O → Shared inner number O) :
    (Schedule.unfold initial advance : Schedule (Shared inner number) I O).hoist
        (Shared.play low high) =
      .unfold initial fun last => (advance last).play low high := by
  apply same_steps
  intro state input
  cases state with
  | none => rfl
  | some last => exact Shared.play_bind low high _ _

variable (left : Schedule (Shared inner number) I O)

theorem hoist_map (f : O → Shared inner number A) :
    (left.map f).hoist (Shared.play low high) =
      (left.hoist (Shared.play low high)).map fun output => (f output).play low high := by
  apply same_steps
  intro state input
  apply Shared.play_congr low high (left.step state input)
  intro decision
  cases decision with
  | done output => exact Shared.play_bind low high _ _
  | proceed output delay next => exact Shared.play_bind low high _ _

theorem hoist_doWhile (keep : I → O → Shared inner number Bool) :
    (left.doWhile keep).hoist (Shared.play low high) =
      (left.hoist (Shared.play low high)).doWhile fun input output =>
        (keep input output).play low high := by
  apply same_steps
  intro state input
  apply Shared.play_congr low high (left.step state input)
  intro decision
  cases decision with
  | done output => rfl
  | proceed output delay next =>
      apply Shared.play_congr low high (keep input output)
      intro kept
      cases kept <;> rfl

theorem hoist_delayed (adjust : O → Duration → Shared inner number Duration) :
    (left.delayed adjust).hoist (Shared.play low high) =
      (left.hoist (Shared.play low high)).delayed fun output delay =>
        (adjust output delay).play low high := by
  apply same_steps
  intro state input
  apply Shared.play_congr low high (left.step state input)
  intro decision
  cases decision with
  | done output => rfl
  | proceed output delay next => exact Shared.play_bind low high _ _

theorem hoist_fold (seed : A) (f : A → O → Shared inner number A) :
    (left.fold seed f).hoist (Shared.play low high) =
      (left.hoist (Shared.play low high)).fold seed fun folded output =>
        (f folded output).play low high := by
  apply same_steps
  intro (folded, state) input
  apply Shared.play_congr low high (left.step state input)
  intro decision
  cases decision with
  | done output => rfl
  | proceed output delay next => exact Shared.play_bind low high _ _

theorem hoist_mapDecision {Track : Type}
    (follow : Track → I → Shared inner number (Decision Track O))
    (f : Decision left.State O → Shared inner number (Decision (left.State ⊕ Track) O)) :
    (left.mapDecision Track follow f).hoist (Shared.play low high) =
      (left.hoist (Shared.play low high)).mapDecision Track
        (fun track input => (follow track input).play low high)
        fun decision => (f decision).play low high := by
  apply same_steps
  intro state input
  cases state with
  | inl state => exact Shared.play_bind low high _ _
  | inr track => exact Shared.play_bind low high _ _

theorem hoist_andWithDelay (right : Schedule (Shared inner number) I A)
    (join : O → A → Shared inner number B)
    (joinDelay : Duration → Duration → Shared inner number Duration) :
    (left.andWithDelay right join joinDelay).hoist (Shared.play low high) =
      (left.hoist (Shared.play low high)).andWithDelay (right.hoist (Shared.play low high))
        (fun output output' => (join output output').play low high)
        fun delay delay' => (joinDelay delay delay').play low high := by
  apply same_steps
  intro (state, state') input
  apply Shared.play_congr low high (left.step state input)
  intro ours
  apply Shared.play_congr low high (right.step state' input)
  intro theirs
  apply Shared.play_congr low high (join ours.output theirs.output)
  intro output
  cases ours with
  | done _ => rfl
  | proceed _ delay next =>
      cases theirs with
      | done _ => rfl
      | proceed _ delay' next' =>
          exact Shared.play_congr low high (joinDelay delay delay') fun _ => rfl

theorem play_stepLive (input : I) (place : Option left.State) :
    (left.stepLive input place).play low high =
      (left.hoist (Shared.play low high)).stepLive input place := by
  cases place with
  | none => rfl
  | some state => exact Shared.play_map low high _ _

theorem hoist_orWithDelay (right : Schedule (Shared inner number) I A)
    (join : Option O → Option A → Shared inner number B)
    (joinDelay : Option Duration → Option Duration → Shared inner number Duration) :
    (left.orWithDelay right join joinDelay).hoist (Shared.play low high) =
      (left.hoist (Shared.play low high)).orWithDelay (right.hoist (Shared.play low high))
        (fun output output' => (join output output').play low high)
        fun delay delay' => (joinDelay delay delay').play low high := by
  apply same_steps
  intro (place, place') input
  apply Shared.play_congr_of low high (play_stepLive low high left input place)
  intro ours
  apply Shared.play_congr_of low high (play_stepLive low high right input place')
  intro theirs
  apply Shared.play_congr low high (join (ours.map (·.output)) (theirs.map (·.output)))
  intro output
  -- No delay is joined where neither side goes on.
  match ours, theirs with
  | none, none | none, some (.done _) | some (.done _), none | some (.done _), some (.done _) =>
      rfl
  | none, some (.proceed ..) | some (.done _), some (.proceed ..) | some (.proceed ..), none
  | some (.proceed ..), some (.done _) | some (.proceed ..), some (.proceed ..) =>
      exact Shared.play_congr low high (joinDelay _ _) fun _ => rfl

theorem hoist_pipe (right : Schedule (Shared inner number) O A) :
    (left.pipe right).hoist (Shared.play low high) =
      (left.hoist (Shared.play low high)).pipe (right.hoist (Shared.play low high)) := by
  apply same_steps
  intro (state, state') input
  apply Shared.play_congr low high (left.step state input)
  intro ours
  apply Shared.play_congr low high (right.step state' ours.output)
  intro theirs
  cases ours <;> cases theirs <;> rfl

theorem hoist_andThenWith (right : Schedule (Shared inner number) I A)
    (first : O → Shared inner number B) (second : A → Shared inner number B) :
    (left.andThenWith right first second).hoist (Shared.play low high) =
      (left.hoist (Shared.play low high)).andThenWith (right.hoist (Shared.play low high))
        (fun output => (first output).play low high)
        fun output => (second output).play low high := by
  have entered (state : right.State) (input : I) :
      Shared.play low high ((left.andThenWith right first second).step (.second state) input) =
        ((left.hoist (Shared.play low high)).andThenWith (right.hoist (Shared.play low high))
          (fun output => (first output).play low high)
          fun output => (second output).play low high).step (.second state) input := by
    apply Shared.play_congr low high (right.step state input)
    intro decision
    cases decision with
    | done output => exact Shared.play_congr low high (second output) fun _ => rfl
    | proceed output delay next => exact Shared.play_congr low high (second output) fun _ => rfl
  apply same_steps
  intro state input
  cases state with
  | first state =>
      apply Shared.play_congr low high (left.step state input)
      intro decision
      cases decision with
      | done output => exact Shared.play_congr low high (first output) fun _ => rfl
      | proceed output delay next => exact Shared.play_congr low high (first output) fun _ => rfl
  | handOver completing => exact entered right.start completing
  | second state => exact entered state input

end Schedule

/-- A schedule made by the combinators from clones, any number of them, and from schedules and
closures that spare the source; a closure may also step a clone by itself. The expression stands on
the right as it is written, and on the left as a schedule of programs. -/
inductive Expression (inner : Schedule Effect J P) (number : Nat) (low high : Binary64) :
    {I O : Type} → Schedule (Shared inner number) I O → Schedule Effect I O → Prop where
  | clone : Expression inner number low high (.cloned inner number)
      (inner.jittered low high (Session.draw number))
  | sparing {I O : Type} {schedule : Schedule Effect I O} (spares : schedule.Spares number) :
      Expression inner number low high (.lifted schedule spares) schedule
  | unfold {I O : Type} (initial : O) (advance : O → Shared inner number O) :
      Expression inner number low high (.unfold initial advance : Schedule _ I O)
        (.unfold initial fun last => (advance last).play low high)
  | map {I O A : Type} {shared : Schedule (Shared inner number) I O} {plain : Schedule Effect I O}
      (expression : Expression inner number low high shared plain)
      (f : O → Shared inner number A) :
      Expression inner number low high (shared.map f)
        (plain.map fun output => (f output).play low high)
  | doWhile {I O : Type} {shared : Schedule (Shared inner number) I O}
      {plain : Schedule Effect I O} (expression : Expression inner number low high shared plain)
      (keep : I → O → Shared inner number Bool) :
      Expression inner number low high (shared.doWhile keep)
        (plain.doWhile fun input output => (keep input output).play low high)
  | delayed {I O : Type} {shared : Schedule (Shared inner number) I O}
      {plain : Schedule Effect I O} (expression : Expression inner number low high shared plain)
      (adjust : O → Duration → Shared inner number Duration) :
      Expression inner number low high (shared.delayed adjust)
        (plain.delayed fun output delay => (adjust output delay).play low high)
  | fold {I O A : Type} {shared : Schedule (Shared inner number) I O} {plain : Schedule Effect I O}
      (expression : Expression inner number low high shared plain) (seed : A)
      (f : A → O → Shared inner number A) :
      Expression inner number low high (shared.fold seed f)
        (plain.fold seed fun folded output => (f folded output).play low high)
  -- The closure is given the continuations too, so it is written for the states of the program.
  | mapDecision {I O Track : Type} {shared : Schedule (Shared inner number) I O}
      {plain : Schedule Effect I O} (expression : Expression inner number low high shared plain)
      (follow : Track → I → Shared inner number (Decision Track O))
      (f : Decision shared.State O → Shared inner number (Decision (shared.State ⊕ Track) O)) :
      Expression inner number low high (shared.mapDecision Track follow f)
        ((shared.hoist (Shared.play low high)).mapDecision Track
          (fun track input => (follow track input).play low high)
          fun decision => (f decision).play low high)
  | andWithDelay {I O A B : Type} {left : Schedule (Shared inner number) I O}
      {right : Schedule (Shared inner number) I A} {plain : Schedule Effect I O}
      {plain' : Schedule Effect I A} (first : Expression inner number low high left plain)
      (second : Expression inner number low high right plain')
      (join : O → A → Shared inner number B)
      (joinDelay : Duration → Duration → Shared inner number Duration) :
      Expression inner number low high (left.andWithDelay right join joinDelay)
        (plain.andWithDelay plain' (fun output output' => (join output output').play low high)
          fun delay delay' => (joinDelay delay delay').play low high)
  | orWithDelay {I O A B : Type} {left : Schedule (Shared inner number) I O}
      {right : Schedule (Shared inner number) I A} {plain : Schedule Effect I O}
      {plain' : Schedule Effect I A} (first : Expression inner number low high left plain)
      (second : Expression inner number low high right plain')
      (join : Option O → Option A → Shared inner number B)
      (joinDelay : Option Duration → Option Duration → Shared inner number Duration) :
      Expression inner number low high (left.orWithDelay right join joinDelay)
        (plain.orWithDelay plain' (fun output output' => (join output output').play low high)
          fun delay delay' => (joinDelay delay delay').play low high)
  | pipe {I O A : Type} {left : Schedule (Shared inner number) I O}
      {right : Schedule (Shared inner number) O A} {plain : Schedule Effect I O}
      {plain' : Schedule Effect O A} (first : Expression inner number low high left plain)
      (second : Expression inner number low high right plain') :
      Expression inner number low high (left.pipe right) (plain.pipe plain')
  | andThenWith {I O A B : Type} {left : Schedule (Shared inner number) I O}
      {right : Schedule (Shared inner number) I A} {plain : Schedule Effect I O}
      {plain' : Schedule Effect I A} (first : Expression inner number low high left plain)
      (second : Expression inner number low high right plain') (toLeft : O → Shared inner number B)
      (toRight : A → Shared inner number B) :
      Expression inner number low high (left.andThenWith right toLeft toRight)
        (plain.andThenWith plain' (fun output => (toLeft output).play low high)
          fun output => (toRight output).play low high)

theorem Expression.hoist {inner : Schedule Effect J P} {number : Nat} {low high : Binary64}
    {I O : Type} {shared : Schedule (Shared inner number) I O} {plain : Schedule Effect I O}
    (expression : Expression inner number low high shared plain) :
    plain = shared.hoist (Shared.play low high) := by
  induction expression with
  | clone => exact (Schedule.hoist_cloned low high).symm
  | sparing spares => exact (Schedule.hoist_lifted low high _ spares).symm
  | unfold initial advance => exact (Schedule.hoist_unfold low high initial advance).symm
  | map _ f ih => rw [Schedule.hoist_map, ih]
  | doWhile _ keep ih => rw [Schedule.hoist_doWhile, ih]
  | delayed _ adjust ih => rw [Schedule.hoist_delayed, ih]
  | fold _ seed f ih => rw [Schedule.hoist_fold, ih]
  | mapDecision _ follow f _ => rw [Schedule.hoist_mapDecision]
  | andWithDelay _ _ join joinDelay ih ih' => rw [Schedule.hoist_andWithDelay, ih, ih']
  | orWithDelay _ _ join joinDelay ih ih' => rw [Schedule.hoist_orWithDelay, ih, ih']
  | pipe _ _ ih ih' => rw [Schedule.hoist_pipe, ih, ih']
  | andThenWith _ _ toLeft toRight ih ih' => rw [Schedule.hoist_andThenWith, ih, ih']

end Cadence
