import Cadence.Proofs.Regroup
import Mathlib.Logic.Equiv.Prod

namespace Cadence

variable {m : Type → Type} [Monad m] {I O A B S T U X Y Z : Type}

def flattenLeft : Option (Option X × Option Y) × Option Z → Option X × Option Y × Option Z
  | (some (x, y), z) => (x, y, z)
  | (none, z) => (none, none, z)

def flattenRight : Option X × Option (Option Y × Option Z) → Option X × Option Y × Option Z
  | (x, some (y, z)) => (x, y, z)
  | (x, none) => (x, none, none)

namespace Decision

def ofDelay (output : O) (next : S) : Option Duration → Decision S O
  | none => done output
  | some delay => proceed output delay next

def allOf : Decision S O → Decision T A → Decision U B → Decision (S × T × U) (O × A × B)
  | proceed o d s, proceed a d' t, proceed b d'' u =>
      proceed (o, a, b) (max d (max d' d'')) (s, t, u)
  | first, second, third => done (first.output, second.output, third.output)

def either (ours : Option (Decision S O)) (theirs : Option (Decision T A)) :
    Decision (Option S × Option T) (Option O × Option A) :=
  ofDelay (ours.map (·.output), theirs.map (·.output)) (ours.bind (·.next?), theirs.bind (·.next?))
    (Option.merge min (ours.bind (·.delay?)) (theirs.bind (·.delay?)))

/-- What three sides decide that go on while one of them does, after the shortest of the delays that
are there. -/
def anyOf (first : Option (Decision S O)) (second : Option (Decision T A))
    (third : Option (Decision U B)) :
    Decision (Option S × Option T × Option U) (Option O × Option A × Option B) :=
  ofDelay (first.map (·.output), second.map (·.output), third.map (·.output))
    (first.bind (·.next?), second.bind (·.next?), third.bind (·.next?))
    (Option.merge min (first.bind (·.delay?))
      (Option.merge min (second.bind (·.delay?)) (third.bind (·.delay?))))

theorem both_both (first : Decision S O) (second : Decision T A) (third : Decision U B) :
    (first.both Prod.mk max (second.both Prod.mk max third)).bimap id id =
      allOf first second third := by
  cases first <;> cases second <;> cases third <;> rfl

theorem either_either_right (first : Option (Decision S O)) (second : Option (Decision T A))
    (third : Option (Decision U B)) :
    (either first (some (either second third))).bimap flattenRight flattenRight =
      anyOf first second third := by
  rcases first with _ | _ | _ <;> rcases second with _ | _ | _ <;> rcases third with _ | _ | _ <;>
    rfl

theorem either_either_left (first : Option (Decision S O)) (second : Option (Decision T A))
    (third : Option (Decision U B)) :
    (either (some (either first second)) third).bimap flattenLeft flattenLeft =
      anyOf first second third := by
  rw [anyOf, ← @Std.Associative.assoc _ (Option.merge min)]
  rcases first with _ | _ | _ <;> rcases second with _ | _ | _ <;> rcases third with _ | _ | _ <;>
    rfl

theorem either_none_right (first : Option (Decision S O)) :
    (either first (none : Option (Decision (Option T × Option U) (Option A × Option B)))).bimap
        flattenRight flattenRight = anyOf first none none := by
  rcases first with _ | _ | _ <;> rfl

theorem either_none_left (third : Option (Decision U B)) :
    (either (none : Option (Decision (Option S × Option T) (Option O × Option A))) third).bimap
        flattenLeft flattenLeft = anyOf none none third := by
  rcases third with _ | _ | _ <;> rfl

end Decision

namespace Schedule

abbrev andThree (a : Schedule m I O) (b : Schedule m I A) (c : Schedule m I B) :
    Schedule m I (O × A × B) where
  State := a.State × b.State × c.State
  start := (a.start, b.start, c.start)
  step
    | (s, t, u), input => do
        let first ← a.step s input
        let second ← b.step t input
        let third ← c.step u input
        return .allOf first second third

abbrev orThree (a : Schedule m I O) (b : Schedule m I A) (c : Schedule m I B) :
    Schedule m I (Option O × Option A × Option B) where
  State := Option a.State × Option b.State × Option c.State
  start := (some a.start, some b.start, some c.start)
  step
    | (s, t, u), input => do
        let first ← a.stepLive input s
        let second ← b.stepLive input t
        let third ← c.stepLive input u
        return .anyOf first second third

abbrev inEither (left : Schedule m I O) (right : Schedule m I A) :
    Schedule m I (Option O × Option A) where
  State := Option left.State × Option right.State
  start := (some left.start, some right.start)
  step
    | (place, place'), input => do
        let ours ← left.stepLive input place
        let theirs ← right.stepLive input place'
        return .either ours theirs

variable [LawfulMonad m]

theorem or_eq_inEither (left : Schedule m I O) (right : Schedule m I A) :
    left.or right = left.inEither right := by
  simp only [Schedule.or, orWith, orWithDelay, inEither, pure_bind]
  congr 1
  funext (place, place') input
  refine bind_congr fun ours => bind_congr fun theirs => ?_
  rcases ours with _ | _ | _ <;> rcases theirs with _ | _ | _ <;> rfl

def andRight (a : Schedule m I O) (b : Schedule m I A) (c : Schedule m I B) :
    Simulation (a.inStep (b.inStep c (fun input _ => input) Prod.mk max) (fun input _ => input)
      Prod.mk max) (a.andThree b c) id where
  carry := id
  start := rfl
  step := by
    rintro ⟨s, t, u⟩ input
    simp only [id_eq, bind_assoc, pure_bind, map_bind, map_pure, Decision.both_both]

def orLeft (a : Schedule m I O) (b : Schedule m I A) (c : Schedule m I B) :
    Simulation ((a.inEither b).inEither c) (a.orThree b c) flattenLeft where
  carry := flattenLeft
  start := rfl
  step := by
    rintro ⟨inner, u⟩ input
    cases inner with
    | none => simp only [flattenLeft, stepLive, pure_bind, map_bind, map_pure,
        Decision.either_none_left]
    | some pair =>
        simp only [flattenLeft, stepLive, bind_assoc, pure_bind, map_bind, map_pure,
          Decision.either_either_left]

def orRight (a : Schedule m I O) (b : Schedule m I A) (c : Schedule m I B) :
    Simulation (a.inEither (b.inEither c)) (a.orThree b c) flattenRight where
  carry := flattenRight
  start := rfl
  step := by
    rintro ⟨s, inner⟩ input
    cases inner with
    | none => simp only [flattenRight, stepLive, pure_bind, map_bind, map_pure,
        Decision.either_none_right]
    | some pair =>
        simp only [flattenRight, stepLive, bind_assoc, pure_bind, map_bind, map_pure,
          Decision.either_either_right]

theorem and_run_regroup (a : Schedule m I O) (b : Schedule m I A) (c : Schedule m I B)
    (inputs : List I) :
    (a.and (b.and c)).run inputs =
      viewed (Equiv.prodAssoc O A B) <$> ((a.and b).and c).run inputs := by
  simp only [and_eq_inStep]
  refine Simulation.run ?_ inputs
  exact inStepAssoc a b c (fun _ _ _ => rfl) (fun _ _ _ => rfl) Duration.max_assoc

theorem and_run_eq_andThree (a : Schedule m I O) (b : Schedule m I A) (c : Schedule m I B)
    (inputs : List I) : (a.and (b.and c)).run inputs = (a.andThree b c).run inputs := by
  simp only [and_eq_inStep]
  exact ((a.andRight b c).run_eq inputs).symm

theorem or_run_left (a : Schedule m I O) (b : Schedule m I A) (c : Schedule m I B)
    (inputs : List I) :
    viewed flattenLeft <$> ((a.or b).or c).run inputs = (a.orThree b c).run inputs := by
  simp only [or_eq_inEither]
  exact ((a.orLeft b c).run inputs).symm

theorem or_run_right (a : Schedule m I O) (b : Schedule m I A) (c : Schedule m I B)
    (inputs : List I) :
    viewed flattenRight <$> (a.or (b.or c)).run inputs = (a.orThree b c).run inputs := by
  simp only [or_eq_inEither]
  exact ((a.orRight b c).run inputs).symm

/-- The laws of grouping for `and` and `or`. Either grouping shows what the three schedules show
that are stepped in their order in one go, once outputs are read as triples; so the two of them end
on the same step, with the same outputs and delays. This holds whatever steps do, so they are also
taken in the same order. -/
theorem and_or_associative (a : Schedule m I O) (b : Schedule m I A) (c : Schedule m I B)
    (inputs : List I) :
    (viewed (Equiv.prodAssoc O A B) <$> ((a.and b).and c).run inputs =
        (a.and (b.and c)).run inputs ∧
      (a.and (b.and c)).run inputs = (a.andThree b c).run inputs) ∧
    (viewed flattenLeft <$> ((a.or b).or c).run inputs =
        viewed flattenRight <$> (a.or (b.or c)).run inputs ∧
      viewed flattenRight <$> (a.or (b.or c)).run inputs = (a.orThree b c).run inputs) := by
  have left := a.or_run_left b c inputs
  have right := a.or_run_right b c inputs
  exact ⟨⟨(a.and_run_regroup b c inputs).symm, a.and_run_eq_andThree b c inputs⟩,
    left.trans right.symm, right⟩

theorem and_or_associative_breaks :
    let first : Schedule Effect Unit Nat := (spaced (.seconds 2)).acting fun (count : Nat) _ =>
      if count = 4 then throw (.raised "first") else Session.trace "first" []
    let second : Schedule Effect Unit Nat := (recurs 1).acting fun _ _ => Session.trace "second" []
    let third : Schedule Effect Unit Nat := (recurs 2).acting fun _ _ => Session.trace "third" []
    let inputs := List.replicate 6 ()
    (viewed (Equiv.prodAssoc Nat Nat Nat) <$> ((first.and second).and third).run inputs =
        (first.and (second.and third)).run inputs ∧
      (first.and (second.and third)).run inputs = (first.andThree second third).run inputs) ∧
    (viewed flattenLeft <$> ((first.or second).or third).run inputs =
        viewed flattenRight <$> (first.or (second.or third)).run inputs ∧
      viewed flattenRight <$> (first.or (second.or third)).run inputs =
        (first.orThree second third).run inputs) :=
  and_or_associative _ _ _ (List.replicate 6 ())

end Schedule
end Cadence
