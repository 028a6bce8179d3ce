import Cadence.Proofs.Composed
import Cadence.Recipe

namespace Cadence

variable {known : Origin → Prop}

section Closures

theorem Test.run_conducted (input output : Value) (test : Test) :
    Conducted known (test.run input output) := by
  induction test with
  | const | input | output | same => exact .pure _
  | not test ih => exact ih.bind fun holds => .pure _
  | both first second ih ih' =>
      refine ih.bind fun holds => ?_
      cases holds
      · exact .pure _
      · exact ih'
  | either first second ih ih' =>
      refine ih.bind fun holds => ?_
      cases holds
      · exact ih'
      · exact .pure _
  | traced tag test ih => exact (Conducted.trace tag _).bind fun _ => ih
  | fault message => exact .throw _

theorem Change.run_conducted (change : Change) (value : Value) :
    Conducted known (change.run value) := by
  induction change generalizing value with
  | keep | display | wrap | const => exact .pure _
  | length | flatten | add | multiply => cases value <;> exact .pure _
  | andThen first second ih ih' => exact (ih value).bind ih'
  | choose condition met unmet ih ih' =>
      rw [Change.run]
      split
      · exact ih value
      · exact ih' value
  | traced tag change ih => exact (Conducted.trace tag _).bind fun _ => ih value
  | fault message => exact .throw _

theorem Adjust.run_conducted (shown : Value) (delay : Duration) (adjust : Adjust) :
    Conducted known (adjust.run shown delay) := by
  induction adjust with
  | traced tag adjust ih => exact (Conducted.trace tag _).bind fun _ => ih
  | fault message => exact .throw _
  | _ => exact .pure _

theorem Join.run_conducted (a b : Value) (join : Join) : Conducted known (join.run a b) := by
  induction join with
  | traced tag join ih => exact (Conducted.trace tag _).bind fun _ => ih
  | fault message => exact .throw _
  | _ => exact .pure _

theorem Join.runOptional_conducted (join : Join) (a b : Option Value) :
    Conducted known (join.runOptional a b) := join.run_conducted (.ofOption a) (.ofOption b)

theorem DelayJoin.run_conducted (a b : Option Duration) (join : DelayJoin) :
    Conducted known (join.run a b) := by
  induction join with
  | traced tag join ih => exact (Conducted.trace tag _).bind fun _ => ih
  | fault message => exact .throw _
  | _ => exact .pure _

theorem Gather.run_conducted (gathered output : Value) (gather : Gather) :
    Conducted known (gather.run gathered output) := by
  induction gather with
  | traced tag gather ih => exact (Conducted.trace tag _).bind fun _ => ih
  | fault message => exact .throw _
  | _ => exact .pure _

end Closures

section Jitter

variable {draw : Effect UInt64}

theorem Random.factor_conducted (word : Conducted known draw) (low high : Binary64) :
    Conducted known (Random.factor draw low high) := by
  rw [Random.factor]
  split
  · rw [Random.factorBetween]
    split
    · exact word.bind fun _ => .pure _
    · exact .throw _
  · exact .pure _

theorem Random.wideWord_conducted (word : Conducted known draw) :
    Conducted known (Random.wideWord draw) :=
  word.bind fun _ => word.bind fun _ => .pure _

theorem Random.inclusive_conducted (word : Conducted known draw) (low high : Nat) :
    Conducted known (Random.inclusive draw low high) := by
  refine (Random.wideWord_conducted word).bind fun wide => ?_
  dsimp only
  split
  · exact (Random.wideWord_conducted word).bind fun _ => .pure _
  · exact .pure _

theorem Jitter.apply_conducted (word : Conducted known draw) (delay : Duration) (jitter : Jitter) :
    Conducted known (jitter.apply draw delay) := by
  cases jitter with
  | none => exact .pure _
  | full =>
      rw [Jitter.apply]
      split
      · exact .pure _
      · exact (Random.inclusive_conducted word 0 delay.nanos).map _
  | equal =>
      rw [Jitter.apply]
      split
      · exact .pure _
      · exact (Random.inclusive_conducted word (delay.nanos / 2) delay.nanos).map _
  | range factors => exact (Random.factor_conducted word factors.low factors.high).map _

end Jitter

namespace Composed

variable {I O A B : Type} {inner left : Schedule Effect I O} {right : Schedule Effect I A}

theorem doUntil (composed : Composed known inner) {stop : I → O → Effect Bool}
    (closure : ∀ input output, Conducted known (stop input output)) :
    Composed known (inner.doUntil stop) :=
  composed.doWhile fun input output => (closure input output).bind fun _ => .pure _

theorem observe (composed : Composed known inner) {action : I → O → Effect Unit}
    (closure : ∀ input output, Conducted known (action input output)) :
    Composed known (inner.observe action) :=
  composed.doWhile fun input output => (closure input output).bind fun _ => .pure _

theorem jittered (composed : Composed known inner) (low high : Binary64) {draw : Effect UInt64}
    (word : Conducted known draw) : Composed known (inner.jittered low high draw) :=
  composed.delayed fun _ _ => (Random.factor_conducted word low high).bind fun _ => .pure _

theorem withJitter (composed : Composed known inner) (jitter : Jitter) {draw : Effect UInt64}
    (word : Conducted known draw) : Composed known (inner.withJitter jitter draw) :=
  composed.delayed fun _ delay => Jitter.apply_conducted word delay jitter

theorem collect (composed : Composed known inner) : Composed known inner.collect :=
  composed.fold [] fun _ _ => .pure _

theorem andWith (first : Composed known left) (second : Composed known right)
    {join : O → A → Effect B}
    (closure : ∀ output output', Conducted known (join output output')) :
    Composed known (left.andWith right join) :=
  first.andWithDelay second closure fun _ _ => .pure _

theorem zipLeft (first : Composed known left) (second : Composed known right) :
    Composed known (left.zipLeft right) :=
  first.andWith second fun output _ => .pure output

theorem orWith (first : Composed known left) (second : Composed known right)
    {join : Option O → Option A → Effect B}
    (closure : ∀ output output', Conducted known (join output output')) :
    Composed known (left.orWith right join) :=
  first.orWithDelay second closure fun _ _ => .pure _

theorem counting {inner : Schedule Effect Value Nat} (composed : Composed known inner) :
    Composed known inner.counting :=
  composed.map fun _ => .pure _

theorem script (first : Cue) (rest : List Cue) : Composed known (.script first rest) := by
  refine .handwritten fun (⟨tag, move⟩, rest) input => ?_
  cases tag with
  | none =>
      cases move with
      | fault message => exact .throw _
      | done output | proceed output delay => exact .pure _
  | some tag =>
      refine (Conducted.trace tag _).bind fun _ => ?_
      cases move with
      | fault message => exact .throw _
      | done output | proceed output delay => exact .pure _

end Composed

def Primitive.draws : Primitive → Bool
  | exponentialRetry .. | standardRetry => true
  | _ => false

def Modifier.draws : Modifier → Bool
  | jittered .. | withJitter _ => true
  | _ => false

theorem Composed.backoffRetry {I : Type} (curve : Backoff) (retries : Nat) :
    Composed known (Schedule.backoffRetry curve retries : Schedule Effect I Nat) :=
  (Composed.recurs retries).zipLeft (.backoff curve)

theorem Primitive.build_composed {part : Primitive} {schedule : ValueSchedule}
    (knows : part.draws = true → known .ambient) (built : part.build = .ok schedule) :
    Composed known schedule := by
  cases part with
  | identity =>
      cases built
      exact .identity
  | spaced delay =>
      cases built
      exact (Composed.spaced delay).counting
  | recurs limit =>
      cases built
      exact (Composed.recurs limit).counting
  | forever =>
      cases built
      exact (Composed.unfold 0 fun _ => .pure _).counting
  | unfold initial advance =>
      cases built
      exact .unfold initial advance.run_conducted
  | backoff curve caps =>
      rw [build] at built
      split at built
      · cases built
      · cases built
        exact (Composed.backoff _).map fun _ => .pure _
  | recurWhile keep =>
      cases built
      exact Composed.identity.doWhile fun input output => keep.run_conducted input output
  | recurUntil stop =>
      cases built
      exact Composed.identity.doUntil fun input output => stop.run_conducted input output
  | collectInputs =>
      cases built
      exact Composed.identity.collect.map fun _ => .pure _
  | exponentialRetry base retries =>
      cases built
      exact ((Composed.backoffRetry _ _).withJitter .full (.draw (knows rfl))).counting
  | cappedExponentialRetry base cap retries =>
      rw [build, Schedule.cappedExponentialRetry] at built
      split at built
      · cases built
      next retry capped =>
        split at capped
        · cases capped
        · cases capped
          cases built
          exact (Composed.backoffRetry _ _).counting
  | linearRetry base retries =>
      cases built
      exact (Composed.backoffRetry _ _).counting
  | fixedRetry delay retries =>
      cases built
      exact ((Composed.recurs retries).zipLeft (.spaced delay)).counting
  | standardRetry =>
      cases built
      exact ((Composed.backoffRetry _ _).withJitter .full (.draw (knows rfl))).counting
  | poll interval =>
      cases built
      exact (Composed.spaced interval).counting
  | script first rest =>
      cases built
      exact .script first rest

theorem Modifier.build_composed {inner schedule : ValueSchedule} {modifier : Modifier}
    (composed : Composed known inner) (knows : modifier.draws = true → known .ambient)
    (built : modifier.build inner = .ok schedule) : Composed known schedule := by
  cases modifier with
  | map change =>
      cases built
      exact composed.map change.run_conducted
  | doWhile keep =>
      cases built
      exact composed.doWhile fun input output => keep.run_conducted input output
  | doUntil stop =>
      cases built
      exact composed.doUntil fun input output => stop.run_conducted input output
  | observe tag =>
      cases built
      exact composed.observe fun input output => .trace tag _
  | delayed adjust =>
      cases built
      exact composed.delayed fun output delay => adjust.run_conducted output delay
  | jittered low high =>
      cases built
      exact composed.jittered low high (.draw (knows rfl))
  | withJitter choice =>
      rw [build] at built
      split at built
      · cases built
      · cases built
        exact composed.withJitter _ (.draw (knows rfl))
  | fold seed gather =>
      cases built
      exact composed.fold seed fun gathered output => gather.run_conducted gathered output
  | collect =>
      cases built
      exact composed.collect.map fun _ => .pure _

theorem Joint.build_composed {left right : ValueSchedule} (first : Composed known left)
    (second : Composed known right) (joint : Joint) :
    Composed known (joint.build left right) := by
  cases joint with
  | and => exact (first.andWith second fun _ _ => .pure _).map fun _ => .pure _
  | andWith join => exact first.andWith second fun a b => join.run_conducted a b
  | andWithDelay join joinDelay =>
      exact first.andWithDelay second (fun a b => join.run_conducted a b)
        fun a b => joinDelay.run_conducted (some a) (some b)
  | or => exact (first.orWith second fun _ _ => .pure _).map fun _ => .pure _
  | orWith join => exact first.orWith second join.runOptional_conducted
  | orWithDelay join joinDelay =>
      exact first.orWithDelay second join.runOptional_conducted
        fun a b => joinDelay.run_conducted a b
  | zipLeft => exact first.zipLeft second
  | zipRight => exact first.andWith second fun _ output => .pure output
  | andThen =>
      exact (first.andThenWith second (fun _ => .pure _) fun _ => .pure _).map fun _ => .pure _
  | andThenWith change change' =>
      exact first.andThenWith second change.run_conducted change'.run_conducted
  | pipe => exact first.pipe second

/-- A detour that depends on nothing but its arguments and the words of known origins. -/
structure Detour.Conducts (known : Origin → Prop) (detour : Detour) : Prop where
  follow : ∀ track input, Conducted known (detour.follow track input)
  apply : ∀ {κ : Type} (decision : Decision κ Value), Conducted known (detour.apply decision)

namespace Detour.Conducts

theorem within {revise : {κ : Type} → Decision κ Value → Effect (Decision κ Value)}
    (closure : ∀ {κ : Type} (decision : Decision κ Value), Conducted known (revise decision)) :
    (Detour.within revise).Conducts known where
  follow := nofun
  apply decision := (closure decision).bind fun _ => .pure _

theorem doneIf (condition : Condition) : (Detour.doneIf condition).Conducts known :=
  within fun decision => by cases decision <;> exact .pure _

theorem setDelay (delay : Duration) : (Detour.setDelay delay).Conducts known :=
  within fun decision => by cases decision <;> exact .pure _

theorem mapOutput (change : Change) : (Detour.mapOutput change).Conducts known :=
  within fun decision => by
    cases decision <;> exact (change.run_conducted _).bind fun _ => .pure _

theorem revive (condition : Condition) (delay : Duration) (last : Value) :
    (Detour.revive condition delay last).Conducts known where
  follow _ _ := .pure _
  apply decision := by cases decision <;> exact .pure _

theorem jump (condition : Condition) {target : ValueSchedule} (composed : Composed known target) :
    (Detour.jump condition target).Conducts known where
  follow := composed.conducts
  apply decision := by cases decision <;> exact .pure _

theorem andThen {first second : Detour} (one : first.Conducts known)
    (other : second.Conducts known) : (first.andThen second).Conducts known where
  follow track input := by
    cases track with
    | inl track => exact (one.follow track input).bind fun _ => .pure _
    | inr track => exact (other.follow track input).bind fun _ => .pure _
  apply decision := (one.apply decision).bind fun revised =>
    (other.apply revised).bind fun _ => .pure _

theorem traced (tag : String) {detour : Detour} (conducts : detour.Conducts known) :
    (detour.traced tag).Conducts known where
  follow := conducts.follow
  apply decision := (Conducted.trace tag _).bind fun _ => conducts.apply decision

end Detour.Conducts

mutual
def Recipe.draws : Recipe → Bool
  | .primitive part => part.draws
  | .named _ => false
  | .modify inner modifier => inner.draws || modifier.draws
  | .jitteredWith .. => true
  | .revise inner revision => inner.draws || revision.draws
  | .combine left right _ => left.draws || right.draws

def Revision.draws : Revision → Bool
  | .jump _ target => target.draws
  | .andThen first second => first.draws || second.draws
  | .traced _ revision => revision.draws
  | _ => false
end

theorem exists_of_bind_ok {ε : Type} {α β : Type 1} {first : Except ε α} {next : α → Except ε β}
    {result : β} (ran : (first >>= next) = .ok result) :
    ∃ value, first = .ok value ∧ next value = .ok result := by
  cases first with
  | error cause => cases ran
  | ok value => exact ⟨value, rfl, ran⟩

mutual
theorem Recipe.build_composed {definitions : Definitions}
    (defined : ∀ definition ∈ definitions, Composed known definition.2) (recipe : Recipe)
    (knows : recipe.draws = true → ∀ origin, known origin) {sources : List Source} {built : Built}
    (builds : recipe.build definitions sources = .ok built) : Composed known built.schedule := by
  cases recipe with
  | primitive part =>
      obtain ⟨schedule, made, rest⟩ := exists_of_bind_ok builds
      cases rest
      exact part.build_composed (fun draws => knows draws .ambient) made
  | named name =>
      rw [Recipe.build] at builds
      split at builds
      · cases builds
      next schedule found =>
        cases builds
        obtain ⟨_, _, split, _⟩ := List.lookup_eq_some_iff.mp found
        exact defined (name, schedule) (split ▸ List.mem_append_right _ List.mem_cons_self)
  | modify inner modifier =>
      rw [Recipe.draws, Bool.or_eq_true] at knows
      obtain ⟨inside, made, rest⟩ := exists_of_bind_ok builds
      obtain ⟨schedule, modified, rest⟩ := exists_of_bind_ok rest
      cases rest
      have composed := Recipe.build_composed defined inner (fun draws => knows (.inl draws)) made
      exact modifier.build_composed composed (fun draws => knows (.inr draws) .ambient) modified
  | jitteredWith inner low high words =>
      obtain ⟨inside, made, rest⟩ := exists_of_bind_ok builds
      cases rest
      have composed := Recipe.build_composed defined inner (fun _ => knows rfl) made
      exact composed.jittered low high (.draw (knows rfl (.numbered inside.sources.length)))
  | revise inner revision =>
      rw [Recipe.draws, Bool.or_eq_true] at knows
      obtain ⟨inside, made, rest⟩ := exists_of_bind_ok builds
      obtain ⟨detour, revised, rest⟩ := exists_of_bind_ok rest
      cases rest
      have composed := Recipe.build_composed defined inner (fun draws => knows (.inl draws)) made
      have conducts :=
        Revision.build_conducts defined revision (fun draws => knows (.inr draws)) revised
      exact composed.mapDecision conducts.follow conducts.apply
  | combine left right joint =>
      rw [Recipe.draws, Bool.or_eq_true] at knows
      obtain ⟨one, made, rest⟩ := exists_of_bind_ok builds
      obtain ⟨other, made', rest⟩ := exists_of_bind_ok rest
      cases rest
      have first := Recipe.build_composed defined left (fun draws => knows (.inl draws)) made
      have second := Recipe.build_composed defined right (fun draws => knows (.inr draws)) made'
      exact joint.build_composed first second

theorem Revision.build_conducts {definitions : Definitions}
    (defined : ∀ definition ∈ definitions, Composed known definition.2) (revision : Revision)
    (knows : revision.draws = true → ∀ origin, known origin) {sources : List Source}
    {built : BuiltDetour} (builds : revision.build definitions sources = .ok built) :
    built.detour.Conducts known := by
  cases revision with
  | keep =>
      cases builds
      exact .within fun decision => .pure decision
  | doneIf condition =>
      cases builds
      exact .doneIf condition
  | setDelay delay =>
      cases builds
      exact .setDelay delay
  | mapOutput change =>
      cases builds
      exact .mapOutput change
  | revive condition delay last =>
      cases builds
      exact .revive condition delay last
  | jump condition target =>
      obtain ⟨inside, made, rest⟩ := exists_of_bind_ok builds
      cases rest
      exact .jump condition (Recipe.build_composed defined target knows made)
  | andThen first second =>
      rw [Revision.draws, Bool.or_eq_true] at knows
      obtain ⟨one, made, rest⟩ := exists_of_bind_ok builds
      obtain ⟨other, made', rest⟩ := exists_of_bind_ok rest
      cases rest
      have conducts := Revision.build_conducts defined first (fun draws => knows (.inl draws)) made
      have conducts' :=
        Revision.build_conducts defined second (fun draws => knows (.inr draws)) made'
      exact conducts.andThen conducts'
  | traced tag revision =>
      obtain ⟨inside, made, rest⟩ := exists_of_bind_ok builds
      cases rest
      exact (Revision.build_conducts defined revision knows made).traced tag
end

theorem Recipe.define_composed {recipes : List (String × Recipe)}
    (knows : recipes.any (·.2.draws) = true → ∀ origin, known origin)
    {definitions definitions' : Definitions} {sources sources' : List Source}
    (defined : ∀ definition ∈ definitions, Composed known definition.2)
    (defines : define recipes definitions sources = .ok (definitions', sources')) :
    ∀ definition ∈ definitions', Composed known definition.2 := by
  induction recipes generalizing definitions sources with
  | nil =>
      cases defines
      exact defined
  | cons entry rest ih =>
      rw [List.any_cons, Bool.or_eq_true] at knows
      obtain ⟨built, made, later⟩ := exists_of_bind_ok defines
      have composed := entry.2.build_composed defined (fun draws => knows (.inl draws)) made
      refine ih (fun draws => knows (.inr draws)) ?_ later
      intro definition member
      rcases List.mem_cons.mp member with rfl | earlier
      · exact composed
      · exact defined definition earlier

theorem Recipe.buildWith_composed {recipes : List (String × Recipe)} {recipe : Recipe}
    (knows : recipes.any (·.2.draws) = true ∨ recipe.draws = true → ∀ origin, known origin)
    {built : Built} (builds : buildWith recipes recipe = .ok built) :
    Composed known built.schedule := by
  obtain ⟨⟨definitions, sources⟩, defines, rest⟩ := exists_of_bind_ok builds
  have defined := define_composed (fun draws => knows (.inl draws)) (fun _ member => by cases member)
    defines
  exact recipe.build_composed defined (fun draws => knows (.inr draws)) rest

end Cadence
