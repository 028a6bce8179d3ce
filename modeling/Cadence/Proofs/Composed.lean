import Cadence.Proofs.Conduct
import Cadence.Schedule.Preset

namespace Cadence

namespace Schedule

/-- No step depends on anything but the state, the input and the words of known origins. -/
def Conducts (known : Origin → Prop) {I O : Type} (schedule : Schedule Effect I O) : Prop :=
  ∀ state input, Conducted known (schedule.step state input)

namespace Conducts

variable {known : Origin → Prop} {I O A B : Type} {inner left : Schedule Effect I O}
  {right : Schedule Effect I A}

theorem played (steps : inner.Conducts known) :
    ∃ conducts : inner.State → I → Conduct known (Decision inner.State O),
      ∀ state input, (conducts state input).play = inner.step state input := by
  have each (state : inner.State) := Classical.skolem.mp (steps state)
  exact Classical.skolem.mp each

theorem unfold (initial : O) {advance : O → Effect O}
    (closure : ∀ last, Conducted known (advance last)) :
    (Schedule.unfold initial advance : Schedule Effect I O).Conducts known := by
  intro state input
  cases state with
  | none => exact .pure _
  | some last => exact (closure last).bind fun output => .pure _

theorem map (steps : inner.Conducts known) {f : O → Effect A}
    (closure : ∀ output, Conducted known (f output)) : (inner.map f).Conducts known := by
  intro state input
  refine (steps state input).bind fun decision => ?_
  cases decision with
  | done output => exact (closure output).bind fun shown => .pure _
  | proceed output delay next => exact (closure output).bind fun shown => .pure _

theorem doWhile (steps : inner.Conducts known) {keep : I → O → Effect Bool}
    (closure : ∀ input output, Conducted known (keep input output)) :
    (inner.doWhile keep).Conducts known := by
  intro state input
  refine (steps state input).bind fun decision => ?_
  cases decision with
  | done output => exact .pure _
  | proceed output delay next =>
      refine (closure input output).bind fun kept => ?_
      cases kept <;> exact .pure _

theorem delayed (steps : inner.Conducts known) {adjust : O → Duration → Effect Duration}
    (closure : ∀ output delay, Conducted known (adjust output delay)) :
    (inner.delayed adjust).Conducts known := by
  intro state input
  refine (steps state input).bind fun decision => ?_
  cases decision with
  | done output => exact .pure _
  | proceed output delay next => exact (closure output delay).bind fun adjusted => .pure _

theorem fold (steps : inner.Conducts known) (seed : A) {f : A → O → Effect A}
    (closure : ∀ folded output, Conducted known (f folded output)) :
    (inner.fold seed f).Conducts known := by
  intro (folded, state) input
  refine (steps state input).bind fun decision => ?_
  cases decision with
  | done output => exact .pure _
  | proceed output delay next => exact (closure folded output).bind fun refolded => .pure _

theorem mapDecision (steps : inner.Conducts known) {Track : Type}
    {follow : Track → I → Effect (Decision Track O)}
    {f : Decision inner.State O → Effect (Decision (inner.State ⊕ Track) O)}
    (track : ∀ state input, Conducted known (follow state input))
    (closure : ∀ decision, Conducted known (f decision)) :
    (inner.mapDecision Track follow f).Conducts known := by
  intro state input
  cases state with
  | inl state => exact (steps state input).bind closure
  | inr state => exact (track state input).bind fun decision => .pure _

theorem andWithDelay (first : left.Conducts known) (second : right.Conducts known)
    {join : O → A → Effect B} {joinDelay : Duration → Duration → Effect Duration}
    (closure : ∀ output output', Conducted known (join output output'))
    (delayClosure : ∀ delay delay', Conducted known (joinDelay delay delay')) :
    (left.andWithDelay right join joinDelay).Conducts known := by
  intro (state, state') input
  refine (first state input).bind fun ours => (second state' input).bind fun theirs => ?_
  refine (closure ours.output theirs.output).bind fun output => ?_
  cases ours with
  | done _ => exact .pure _
  | proceed _ delay next =>
      cases theirs with
      | done _ => exact .pure _
      | proceed _ delay' next' => exact (delayClosure delay delay').bind fun _ => .pure _

theorem stepLive (steps : inner.Conducts known) (input : I) (place : Option inner.State) :
    Conducted known (inner.stepLive input place) := by
  cases place with
  | none => exact .pure _
  | some state => exact (steps state input).map some

theorem orWithDelay (first : left.Conducts known) (second : right.Conducts known)
    {join : Option O → Option A → Effect B}
    {joinDelay : Option Duration → Option Duration → Effect Duration}
    (closure : ∀ output output', Conducted known (join output output'))
    (delayClosure : ∀ delay delay', Conducted known (joinDelay delay delay')) :
    (left.orWithDelay right join joinDelay).Conducts known := by
  intro (place, place') input
  refine (first.stepLive input place).bind fun ours =>
    (second.stepLive input place').bind fun theirs => ?_
  refine (closure _ _).bind fun output => ?_
  cases ours.bind (·.next?) <;> cases theirs.bind (·.next?)
  · exact .pure _
  all_goals exact (delayClosure _ _).bind fun delay => .pure _

theorem pipe {right : Schedule Effect O A} (first : left.Conducts known)
    (second : right.Conducts known) : (left.pipe right).Conducts known := by
  intro (state, state') input
  refine (first state input).bind fun ours => (second state' ours.output).bind fun theirs => ?_
  cases ours <;> cases theirs <;> exact .pure _

theorem andThenWith (first : left.Conducts known) (second : right.Conducts known)
    {toLeft : O → Effect B} {toRight : A → Effect B}
    (leftClosure : ∀ output, Conducted known (toLeft output))
    (rightClosure : ∀ output, Conducted known (toRight output)) :
    (left.andThenWith right toLeft toRight).Conducts known := by
  have enter (state : right.State) (input : I) : Conducted known
      ((left.andThenWith right toLeft toRight).step (.second state) input) := by
    refine (second state input).bind fun decision => ?_
    cases decision with
    | done output => exact (rightClosure output).bind fun shown => .pure _
    | proceed output delay next => exact (rightClosure output).bind fun shown => .pure _
  intro state input
  cases state with
  | first state =>
      refine (first state input).bind fun decision => ?_
      cases decision with
      | done output => exact (leftClosure output).bind fun shown => .pure _
      | proceed output delay next => exact (leftClosure output).bind fun shown => .pure _
  | handOver completing => exact enter right.start completing
  | second state => exact enter state input

end Conducts
end Schedule

/-- Schedules made by the constructors and combinators from closures that draw words of known origins
only. A schedule may also be written out by hand. -/
inductive Composed (known : Origin → Prop) :
    {I O : Type} → Schedule Effect I O → Prop where
  | handwritten {I O : Type} {schedule : Schedule Effect I O}
      (steps : schedule.Conducts known) :
      Composed known schedule
  | identity {I : Type} : Composed known (.identity : Schedule Effect I I)
  | spaced {I : Type} (delay : Duration) : Composed known (.spaced delay : Schedule Effect I Nat)
  | recurs {I : Type} (limit : Nat) : Composed known (.recurs limit : Schedule Effect I Nat)
  | backoff {I : Type} (curve : Backoff) :
      Composed known (.backoff curve : Schedule Effect I Duration)
  | unfold {I O : Type} (initial : O) {advance : O → Effect O}
      (closure : ∀ last, Conducted known (advance last)) :
      Composed known (.unfold initial advance : Schedule Effect I O)
  | map {I O A : Type} {inner : Schedule Effect I O} (composed : Composed known inner)
      {f : O → Effect A} (closure : ∀ output, Conducted known (f output)) :
      Composed known (inner.map f)
  | doWhile {I O : Type} {inner : Schedule Effect I O} (composed : Composed known inner)
      {keep : I → O → Effect Bool} (closure : ∀ input output, Conducted known (keep input output)) :
      Composed known (inner.doWhile keep)
  | delayed {I O : Type} {inner : Schedule Effect I O} (composed : Composed known inner)
      {adjust : O → Duration → Effect Duration}
      (closure : ∀ output delay, Conducted known (adjust output delay)) :
      Composed known (inner.delayed adjust)
  | fold {I O A : Type} {inner : Schedule Effect I O} (composed : Composed known inner) (seed : A)
      {f : A → O → Effect A} (closure : ∀ folded output, Conducted known (f folded output)) :
      Composed known (inner.fold seed f)
  | mapDecision {I O : Type} {inner : Schedule Effect I O} (composed : Composed known inner)
      {Track : Type} {follow : Track → I → Effect (Decision Track O)}
      {f : Decision inner.State O → Effect (Decision (inner.State ⊕ Track) O)}
      (track : ∀ state input, Conducted known (follow state input))
      (closure : ∀ decision, Conducted known (f decision)) :
      Composed known (inner.mapDecision Track follow f)
  | andWithDelay {I O A B : Type} {left : Schedule Effect I O} {right : Schedule Effect I A}
      (first : Composed known left) (second : Composed known right) {join : O → A → Effect B}
      {joinDelay : Duration → Duration → Effect Duration}
      (closure : ∀ output output', Conducted known (join output output'))
      (delayClosure : ∀ delay delay', Conducted known (joinDelay delay delay')) :
      Composed known (left.andWithDelay right join joinDelay)
  | orWithDelay {I O A B : Type} {left : Schedule Effect I O} {right : Schedule Effect I A}
      (first : Composed known left) (second : Composed known right)
      {join : Option O → Option A → Effect B}
      {joinDelay : Option Duration → Option Duration → Effect Duration}
      (closure : ∀ output output', Conducted known (join output output'))
      (delayClosure : ∀ delay delay', Conducted known (joinDelay delay delay')) :
      Composed known (left.orWithDelay right join joinDelay)
  | pipe {I O A : Type} {left : Schedule Effect I O} {right : Schedule Effect O A}
      (first : Composed known left) (second : Composed known right) :
      Composed known (left.pipe right)
  | andThenWith {I O A B : Type} {left : Schedule Effect I O} {right : Schedule Effect I A}
      (first : Composed known left) (second : Composed known right) {toLeft : O → Effect B}
      {toRight : A → Effect B} (leftClosure : ∀ output, Conducted known (toLeft output))
      (rightClosure : ∀ output, Conducted known (toRight output)) :
      Composed known (left.andThenWith right toLeft toRight)

theorem Composed.conducts {known : Origin → Prop} {I O : Type} {schedule : Schedule Effect I O}
    (composed : Composed known schedule) : schedule.Conducts known := by
  induction composed with
  | handwritten steps => exact steps
  | identity => exact fun _ _ => .pure _
  | spaced delay => exact fun _ _ => .pure _
  | recurs limit => exact fun _ _ => .pure _
  | backoff curve => exact fun _ _ => .pure _
  | unfold initial closure => exact .unfold initial closure
  | map _ closure ih => exact ih.map closure
  | doWhile _ closure ih => exact ih.doWhile closure
  | delayed _ closure ih => exact ih.delayed closure
  | fold _ seed closure ih => exact ih.fold seed closure
  | mapDecision _ track closure ih => exact ih.mapDecision track closure
  | andWithDelay _ _ closure delayClosure ih ih' => exact ih.andWithDelay ih' closure delayClosure
  | orWithDelay _ _ closure delayClosure ih ih' => exact ih.orWithDelay ih' closure delayClosure
  | pipe _ _ ih ih' => exact ih.pipe ih'
  | andThenWith _ _ leftClosure rightClosure ih ih' =>
      exact ih.andThenWith ih' leftClosure rightClosure

end Cadence
