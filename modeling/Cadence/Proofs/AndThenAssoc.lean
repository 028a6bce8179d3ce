import Cadence.Proofs.AndThenRun
import Cadence.Proofs.Simulation
import Mathlib.Logic.Equiv.Sum

/-!
Three schedules in sequence, grouped to the left and to the right. The two groupings differ at most
in what the third schedule is given: grouped to the left it is handed the input that the pair before
it was stepped on last, and grouped to the right the one that the second schedule was.
-/
namespace Cadence

open Schedule (Entry viewed)

variable {m : Type → Type} [Monad m] {I O A B C : Type}

theorem endPlace?_viewed (view : O → A) (entries : List (Entry O)) :
    endPlace? (viewed view entries) = endPlace? entries := by
  rw [endPlace?, viewed, List.findIdx?_map]
  rfl

theorem endPlace?_relayed_append (earlier later : List (Entry O)) :
    endPlace? (relayed earlier ++ later) = (endPlace? later).map (earlier.length + ·) := by
  induction earlier with
  | nil => simp [relayed]
  | cons entry earlier ih =>
      rw [relayed, List.map_cons, List.cons_append, endPlace?_cons_proceed]
      change Option.map (· + 1) (endPlace? (relayed earlier ++ later)) = _
      rw [ih, Option.map_map, List.length_cons]
      congr 1
      funext place
      exact Nat.add_right_comm ..

theorem viewed_relayed (view : O → A) (entries : List (Entry O)) :
    viewed view (relayed entries) = relayed (viewed view entries) := by
  rw [viewed, relayed, relayed, viewed, List.map_map, List.map_map]
  rfl

theorem relayed_relayed (entries : List (Entry O)) :
    relayed (relayed entries) = relayed entries := by
  rw [relayed, relayed, List.map_map]
  rfl

theorem relayed_append (earlier later : List (Entry O)) :
    relayed (earlier ++ later) = relayed earlier ++ relayed later :=
  List.map_append

theorem viewed_append (view : O → A) (earlier later : List (Entry O)) :
    viewed view (earlier ++ later) = viewed view earlier ++ viewed view later :=
  List.map_append

theorem length_viewed (view : O → A) (entries : List (Entry O)) :
    (viewed view entries).length = entries.length := List.length_map ..

theorem viewed_viewed (view : O → A) (outer : A → B) (entries : List (Entry O)) :
    viewed outer (viewed view entries) = viewed (outer ∘ view) entries := by
  rw [viewed, viewed, viewed, List.map_map]
  rfl

theorem handedOver_nil (place : Option Nat) : handedOver ([] : List I) place = [] := by
  cases place <;> simp [handedOver]

theorem handedOver_some {inputs : List I} {place : Nat} {completing : I}
    (completes : inputs[place]? = some completing) :
    handedOver inputs (some place) =
      match inputs.drop (place + 1) with
      | [] => []
      | _ :: handed => completing :: handed := by
  obtain ⟨bound, rfl⟩ := List.getElem?_eq_some_iff.mp completes
  rw [handedOver, List.drop_eq_getElem_cons bound]
  cases inputs.drop (place + 1) <;> rfl

theorem drop_handedOver (inputs : List I) (place count : Nat) :
    (handedOver inputs (some place)).drop (count + 1) = inputs.drop (place + 1 + (count + 1)) := by
  have further : inputs.drop (place + 1 + (count + 1)) = (inputs.drop place).drop (count + 2) := by
    rw [List.drop_drop]
    congr 1
    omega
  rw [further, handedOver]
  rcases inputs.drop place with _ | ⟨completing, _ | ⟨ignored, later⟩⟩ <;> simp

theorem handedOver_of_drop {inputs inputs' : List I} {place place' : Nat}
    (same : inputs.drop place = inputs'.drop place') :
    handedOver inputs (some place) = handedOver inputs' (some place') := by
  rw [handedOver, handedOver, same]

/-- What the third schedule is given where the first two are grouped: the pair is done when the
second one is, on the input that it was stepped on itself. -/
def pairHandsOver (inputs : List I) (first second : Option Nat) : List I :=
  handedOver inputs (first.bind fun place => second.map (place + 1 + ·))

/-- What the third schedule is given where the last two are grouped: what is left of the inputs of
the second. -/
def secondHandsOver (inputs : List I) (first second : Option Nat) : List I :=
  handedOver (handedOver inputs first) second

theorem pairHandsOver_eq (inputs : List I) (first : Option Nat) {second : Option Nat}
    (later : second ≠ some 0) :
    pairHandsOver inputs first second = secondHandsOver inputs first second := by
  cases first with
  | none => exact (handedOver_nil second).symm
  | some place =>
      cases second with
      | none => rfl
      | some place' =>
          have positive : place' ≠ 0 := fun zero => later (congrArg some zero)
          obtain ⟨count, rfl⟩ := Nat.exists_eq_succ_of_ne_zero positive
          exact handedOver_of_drop (drop_handedOver inputs place count).symm

namespace Schedule

variable [LawfulMonad m]

def mapView (schedule : Schedule m I O) (view : O → A) :
    Simulation schedule (schedule.map fun output => pure (view output)) view where
  carry := id
  start := rfl
  step state input := by
    rw [← bind_pure_comp]
    refine bind_congr fun decision => ?_
    cases decision <;> exact pure_bind ..

theorem andThen_run (left : Schedule m I O) (right : Schedule m I A) (inputs : List I) :
    (left.andThen right).run inputs = (do
      let ours ← left.run inputs
      let theirs ← right.run (handedOver inputs (endPlace? ours))
      return relayed (viewed .inl ours) ++ viewed .inr theirs) := by
  calc
    _ = (do
        let ours ← (left.map fun output => pure (.inl output)).run inputs
        let theirs ← (right.map fun output => pure (.inr output)).run
          (handedOver inputs (endPlace? ours))
        return relayed ours ++ theirs) :=
      left.andThenWith_runFrom_first right _ _ inputs left.start
    _ = _ := by
      simp only [(left.mapView _).run, (right.mapView _).run, bind_map_left, endPlace?_viewed]

/-- Runs three schedules in sequence, the third on what `feed` makes of the places at which the two
before it are done. -/
def runThree (a : Schedule m I O) (b : Schedule m I A) (c : Schedule m I B) (inputs : List I)
    (feed : (first second : Option Nat) → List I) : m (List (Entry (O ⊕ A ⊕ B))) := do
  let first ← a.run inputs
  let second ← b.run (handedOver inputs (endPlace? first))
  let third ← c.run (feed (endPlace? first) (endPlace? second))
  return relayed (viewed .inl first) ++
    (relayed (viewed (.inr ∘ .inl) second) ++ viewed (.inr ∘ .inr) third)

theorem andThen_run_right (a : Schedule m I O) (b : Schedule m I A) (c : Schedule m I B)
    (inputs : List I) :
    (a.andThen (b.andThen c)).run inputs = a.runThree b c inputs (secondHandsOver inputs) := by
  simp only [andThen_run, runThree, bind_assoc, pure_bind, viewed_append, viewed_relayed,
    viewed_viewed]
  rfl

theorem andThen_run_left (a : Schedule m I O) (b : Schedule m I A) (c : Schedule m I B)
    (inputs : List I) :
    viewed (Equiv.sumAssoc O A B) <$> ((a.andThen b).andThen c).run inputs =
      a.runThree b c inputs (pairHandsOver inputs) := by
  calc
    _ = (do
        let first ← a.run inputs
        let second ← b.run (handedOver inputs (endPlace? first))
        let third ← c.run (handedOver inputs ((endPlace? second).map (first.length + ·)))
        return relayed (viewed .inl first) ++
          (relayed (viewed (.inr ∘ .inl) second) ++ viewed (.inr ∘ .inr) third)) := by
      simp only [andThen_run, bind_assoc, pure_bind, map_bind, map_pure, viewed_append,
        viewed_relayed, viewed_viewed, relayed_append, relayed_relayed, endPlace?_relayed_append,
        endPlace?_viewed, length_viewed, List.append_assoc]
      rfl
    _ = _ := by
      refine a.runFrom_bind_congr ?_ inputs a.start
      intro first ends
      cases ended : endPlace? first with
      | none => simp [handedOver, run, runFrom, pairHandsOver, endPlace?]
      | some place =>
          rw [ends place ended]
          rfl

theorem run_cons_eq (plan : Schedule Id I O) (input : I) (inputs : List I) :
    (plan.run (input :: inputs)).run =
      (⟨plan.start, input, plan.step plan.start input⟩ : Visit plan.State I O).entry ::
        (plan.visitsFrom (plan.step plan.start input : Decision plan.State O).next? inputs).map
          Visit.entry :=
  plan.run_eq_visits (input :: inputs)

theorem run_cons_done (plan : Schedule Id I O) {input : I}
    (done : (plan.step plan.start input : Decision plan.State O).isDone = true) (inputs : List I) :
    ∃ output, (plan.run (input :: inputs)).run = [(output, none)] := by
  rw [run_cons_eq]
  generalize (plan.step plan.start input : Decision plan.State O) = decision at done ⊢
  cases decision with
  | done output => exact ⟨output, by rw [Decision.next?, visitsFrom_none]; rfl⟩
  | proceed output delay next => exact absurd done Bool.false_ne_true

theorem endPlace?_run_cons (plan : Schedule Id I O) {input : I}
    (proceeds : (plan.step plan.start input : Decision plan.State O).isDone = false)
    (inputs : List I) : endPlace? (plan.run (input :: inputs)).run ≠ some 0 := by
  rw [run_cons_eq]
  generalize (plan.step plan.start input : Decision plan.State O) = decision at proceeds ⊢
  cases decision with
  | done output => exact nomatch proceeds
  | proceed output delay next =>
      rw [Visit.entry, Visit.output_mk, Visit.delay?_mk, Decision.delay?, endPlace?_cons_proceed]
      simp

section Plan

variable (a : Schedule Id I O) (b : Schedule Id I A) (c : Schedule Id I B) (inputs : List I)

def pairFirst : List (Entry (O ⊕ A ⊕ B)) :=
  viewed (Equiv.sumAssoc O A B) (((a.andThen b).andThen c).run inputs).run

def pairLast : List (Entry (O ⊕ A ⊕ B)) := ((a.andThen (b.andThen c)).run inputs).run

theorem pairFirst_eq_pairLast
    (later : endPlace? (b.run (handedOver inputs (endPlace? (a.run inputs).run))).run ≠ some 0) :
    a.pairFirst b c inputs = a.pairLast b c inputs := by
  have left : a.pairFirst b c inputs = (a.runThree b c inputs (pairHandsOver inputs)).run :=
    a.andThen_run_left b c inputs
  have right : a.pairLast b c inputs = (a.runThree b c inputs (secondHandsOver inputs)).run :=
    a.andThen_run_right b c inputs
  rw [left, right]
  simp only [runThree, Id.run_bind, pairHandsOver_eq inputs _ later]

theorem runThree_of_done {place : Nat} {completing : I} {handed : List I}
    (ended : endPlace? (a.run inputs).run = some place)
    (given : handedOver inputs (some place) = completing :: handed)
    (done : (b.step b.start completing : Decision b.State A).isDone = true) :
    ∃ shown : List (Entry (O ⊕ A ⊕ B)), shown.length = place + 2 ∧ ∀ feed,
      (a.runThree b c inputs feed).run =
        shown ++ viewed (.inr ∘ .inr) (c.run (feed (some place) (some 0))).run := by
  obtain ⟨output, answered⟩ := b.run_cons_done done handed
  refine ⟨relayed (viewed .inl (a.run inputs).run) ++
    relayed (viewed (.inr ∘ .inl) [(output, none)]), ?_, ?_⟩
  · have length := a.endsDone_run inputs place ended
    simpa [relayed, viewed] using length
  · intro feed
    simp only [runThree, Id.run_bind, ended, given, answered, endPlace?_cons_done, Id.run_pure,
      List.append_assoc]

theorem regrouped_of_done {place : Nat} {completing : I}
    (ended : endPlace? (a.run inputs).run = some place)
    (completes : inputs[place]? = some completing)
    (done : (b.step b.start completing : Decision b.State A).isDone = true) :
    (a.pairFirst b c inputs).take (place + 2) = (a.pairLast b c inputs).take (place + 2) ∧
    ∀ next ignored later, inputs.drop (place + 1) = next :: ignored :: later →
      (a.pairFirst b c inputs).drop (place + 2) =
        viewed (.inr ∘ .inr) (c.run (next :: later)).run ∧
      (a.pairLast b c inputs).drop (place + 2) =
        viewed (.inr ∘ .inr) (c.run (completing :: later)).run := by
  have left : a.pairFirst b c inputs = (a.runThree b c inputs (pairHandsOver inputs)).run :=
    a.andThen_run_left b c inputs
  have right : a.pairLast b c inputs = (a.runThree b c inputs (secondHandsOver inputs)).run :=
    a.andThen_run_right b c inputs
  have given := handedOver_some completes
  cases rest : inputs.drop (place + 1) with
  | nil =>
      -- The inputs end before the second plan is stepped.
      rw [rest] at given
      have unended : endPlace? (b.run ([] : List I)).run ≠ some 0 := nofun
      have agree := a.pairFirst_eq_pairLast b c inputs (by rw [ended, given]; exact unended)
      exact ⟨by rw [agree], nofun⟩
  | cons next handed =>
      rw [rest] at given
      obtain ⟨shown, length, runs⟩ := a.runThree_of_done b c inputs ended given done
      rw [left, right, runs, runs, ← length]
      refine ⟨by rw [List.take_left, List.take_left], ?_⟩
      rintro next' ignored later same
      obtain ⟨rfl, rfl⟩ := List.cons.inj same
      rw [List.drop_left, List.drop_left]
      constructor
      · simp only [pairHandsOver, Option.bind_some, Option.map_some, Nat.add_zero, handedOver, rest]
      · rw [secondHandsOver, given]
        rfl

end Plan

/-- The law of grouping for `andThen`. Whatever steps do, either grouping runs the three schedules
one after the other, and only what the third one is given depends on the grouping, if the second one
is done on its first step. Of three plans the runs are the same otherwise; in that case they are the
same up to the step that hands over to the third plan, which is then given the input of that step or
the one that completed the first plan. -/
theorem andThen_associative (inputs : List I) :
    (∀ (a : Schedule m I O) (b : Schedule m I A) (c : Schedule m I B),
      viewed (Equiv.sumAssoc O A B) <$> ((a.andThen b).andThen c).run inputs =
        a.runThree b c inputs (pairHandsOver inputs) ∧
      (a.andThen (b.andThen c)).run inputs = a.runThree b c inputs (secondHandsOver inputs)) ∧
    (∀ first second, second ≠ some 0 →
      pairHandsOver inputs first second = secondHandsOver inputs first second) ∧
    ∀ (a : Schedule Id I O) (b : Schedule Id I A) (c : Schedule Id I B),
      (endPlace? (a.run inputs).run = none → a.pairFirst b c inputs = a.pairLast b c inputs) ∧
      ∀ place completing, endPlace? (a.run inputs).run = some place →
        inputs[place]? = some completing →
          ((b.step b.start completing : Decision b.State A).isDone = false →
            a.pairFirst b c inputs = a.pairLast b c inputs) ∧
          ((b.step b.start completing : Decision b.State A).isDone = true →
            (a.pairFirst b c inputs).take (place + 2) = (a.pairLast b c inputs).take (place + 2) ∧
            ∀ next ignored later, inputs.drop (place + 1) = next :: ignored :: later →
              (a.pairFirst b c inputs).drop (place + 2) =
                viewed (.inr ∘ .inr) (c.run (next :: later)).run ∧
              (a.pairLast b c inputs).drop (place + 2) =
                viewed (.inr ∘ .inr) (c.run (completing :: later)).run) := by
  refine ⟨fun a b c => ⟨a.andThen_run_left b c inputs, a.andThen_run_right b c inputs⟩,
    fun first _ => pairHandsOver_eq inputs first, ?_⟩
  intro a b c
  refine ⟨?_, ?_⟩
  · intro unended
    have nothing : endPlace? (b.run ([] : List I)).run ≠ some 0 := nofun
    exact a.pairFirst_eq_pairLast b c inputs (by rw [unended]; exact nothing)
  · intro place completing ended completes
    refine ⟨?_, a.regrouped_of_done b c inputs ended completes⟩
    intro proceeds
    apply a.pairFirst_eq_pairLast b c inputs
    rw [ended, handedOver_some completes]
    cases inputs.drop (place + 1) with
    | nil => exact nofun
    | cons _ handed => exact b.endPlace?_run_cons proceeds handed

/-- The first plan is done on input 1, and the second one at once. Grouped to the left the third plan
is given 2 first, and grouped to the right 1. -/
theorem andThen_associative_recurs :
    endPlace? ((recurs (m := Id) 1).run [0, 1, 2, 3, 4, 5]).run = some 1 ∧
    ((recurs 1).pairFirst (recurs 0) identity [0, 1, 2, 3, 4, 5]).drop 3 =
      viewed (.inr ∘ .inr) (identity.run (m := Id) [2, 4, 5]).run ∧
    ((recurs 1).pairLast (recurs 0) identity [0, 1, 2, 3, 4, 5]).drop 3 =
      viewed (.inr ∘ .inr) (identity.run (m := Id) [1, 4, 5]).run := by
  have law := andThen_associative (m := Id) (O := Nat) (A := Nat) (B := Nat) [0, 1, 2, 3, 4, 5]
  have regrouped := (law.2.2 (recurs 1) (recurs 0) identity).2 1 1 rfl rfl
  exact ⟨rfl, (regrouped.2 rfl).2 2 3 [4, 5] rfl⟩

end Schedule
end Cadence
