import Cadence.Proofs.Visit
import Cadence.Schedule.Combine
import Cadence.Schedule.Primitive
import Cadence.Session

namespace Cadence

open Schedule (Entry)

variable {m : Type → Type} [Monad m] {L R I O A B : Type}

/-- The delay of a turn. If neither side goes on it is the last turn, and no delays are joined. -/
def eitherDelay (joinDelay : Option Duration → Option Duration → m Duration) :
    Option Duration → Option Duration → m (Option Duration)
  | none, none => pure none
  | delay, delay' => some <$> joinDelay delay delay'

def leastDelay (delay delay' : Option Duration) : m (Option Duration) :=
  pure (delay.toList ++ delay'.toList).min?

theorem eitherDelay_merge_min [LawfulMonad m] (delay delay' : Option Duration) :
    eitherDelay (fun a b => pure (Duration.merge min a b) : _ → _ → m Duration) delay delay' =
      leastDelay delay delay' := by
  cases delay <;> cases delay' <;> simp only [eitherDelay, map_pure] <;> rfl

/-- A turn steps the sides that have not ended, the left one first, and joins what they show. -/
def orTurn (actLeft : L → I → m Unit) (actRight : R → I → m Unit)
    (join : Option O → Option A → m B)
    (delays : Option Duration → Option Duration → m (Option Duration))
    (turn : Option (Visit L I O) × Option (Visit R I A)) : m (Entry B) := do
  turn.1.elim (pure ()) fun visit => actLeft visit.state visit.input
  turn.2.elim (pure ()) fun visit => actRight visit.state visit.input
  let output ← join (turn.1.map Visit.output) (turn.2.map Visit.output)
  let delay ← delays (turn.1.bind Visit.delay?) (turn.2.bind Visit.delay?)
  return (output, delay)

def orEntry (join : Option O → Option A → B)
    (joinDelay : Option Duration → Option Duration → Duration) (ours : Option (Entry O))
    (theirs : Option (Entry A)) : Entry B :=
  (join (ours.map (·.1)) (theirs.map (·.1)),
    match ours.bind (·.2), theirs.bind (·.2) with
    | none, none => none
    | delay, delay' => some (joinDelay delay delay'))

theorem orTurn_eq_orEntry (join : Option O → Option A → B)
    (joinDelay : Option Duration → Option Duration → Duration)
    (turn : Option (Visit L I O) × Option (Visit R I A)) :
    orTurn (m := Id) (fun _ _ => ()) (fun _ _ => ()) join (eitherDelay (m := Id) joinDelay) turn =
      orEntry join joinDelay (turn.1.map Visit.entry) (turn.2.map Visit.entry) := by
  obtain ⟨ours, theirs⟩ := turn
  rcases ours with _ | ⟨_, _, _ | _⟩ <;> rcases theirs with _ | ⟨_, _, _ | _⟩ <;> rfl

theorem length_zipWithAll {α β γ : Type} (pair : Option α → Option β → γ) (xs : List α)
    (ys : List β) : (List.zipWithAll pair xs ys).length = max xs.length ys.length := by
  induction xs generalizing ys with
  | nil => simp
  | cons x xs ih =>
      cases ys with
      | nil => simp
      | cons y ys => simp [ih, Nat.succ_max_succ]

namespace Schedule

theorem orWithDelay_step (left : Schedule m I O) (right : Schedule m I A)
    (join : Option O → Option A → m B)
    (joinDelay : Option Duration → Option Duration → m Duration) (place : Option left.State)
    (place' : Option right.State) (input : I) :
    (left.orWithDelay right join joinDelay).step (place, place') input = (do
      let ours ← left.stepLive input place
      let theirs ← right.stepLive input place'
      let output ← join (ours.map (·.output)) (theirs.map (·.output))
      match ours.bind (·.next?), theirs.bind (·.next?) with
      | none, none => return .done output
      | next, next' =>
          let delay ← joinDelay (ours.bind (·.delay?)) (theirs.bind (·.delay?))
          return .proceed output delay (next, next')) := rfl

variable [LawfulMonad m] {left : Schedule Id I O} {right : Schedule Id I A}

theorem stepLive_acting (act : left.State → I → m Unit) (input : I) (place : Option left.State) :
    (left.acting act).stepLive input place = (do
      (left.look input place).elim (pure ()) fun visit => act visit.state visit.input
      return (left.look input place).map Visit.decision) := by
  cases place with
  | none =>
      simp only [stepLive, look, Option.map_none, Option.elim_none, pure_bind]
  | some state =>
      simp only [stepLive, look, acting, map_bind, map_pure, Option.map_some, Option.elim_some]

theorem zipWithAll_visitsFrom {α : Type}
    (pair : Option (Visit left.State I O) → Option (Visit right.State I A) → α) (input : I)
    (inputs : List I) {place : Option left.State} {place' : Option right.State}
    (live : place.isSome || place'.isSome) :
    List.zipWithAll pair (left.visitsFrom place (input :: inputs))
        (right.visitsFrom place' (input :: inputs)) =
      let ours := left.look input place
      let theirs := right.look input place'
      pair ours theirs :: List.zipWithAll pair (left.visitsFrom (ours.bind Visit.next?) inputs)
        (right.visitsFrom (theirs.bind Visit.next?) inputs) := by
  cases place with
  | some state => cases place' <;> simp [visitsFrom, look]
  | none =>
      cases place' with
      | some state' => simp [visitsFrom, look]
      | none => exact absurd live Bool.false_ne_true

variable (left right)

theorem orWithDelay_runFrom (actLeft : left.State → I → m Unit)
    (actRight : right.State → I → m Unit) (join : Option O → Option A → m B)
    (joinDelay : Option Duration → Option Duration → m Duration) (inputs : List I)
    {place : Option left.State} {place' : Option right.State}
    (live : place.isSome || place'.isSome) :
    ((left.acting actLeft).orWithDelay (right.acting actRight) join joinDelay).runFrom
        (place, place') inputs =
      (List.zipWithAll Prod.mk (left.visitsFrom place inputs)
        (right.visitsFrom place' inputs)).mapM
          (orTurn actLeft actRight join (eitherDelay joinDelay)) := by
  induction inputs generalizing place place' with
  | nil => simp [runFrom]
  | cons input inputs ih =>
      simp only [runFrom]
      rw [orWithDelay_step, stepLive_acting, stepLive_acting, zipWithAll_visitsFrom _ _ _ live,
        List.mapM_cons]
      generalize left.look input place = ours
      generalize right.look input place' = theirs
      simp only [orTurn, bind_assoc, pure_bind]
      refine bind_congr fun _ => bind_congr fun _ => ?_
      -- Each side has ended, is done on this step, or goes on.
      rcases ours with _ | ⟨_, _, _ | _⟩ <;> rcases theirs with _ | ⟨_, _, _ | _⟩ <;>
        simp [eitherDelay, ih]

def turns (inputs : List I) :
    List (Option (Visit left.State I O) × Option (Visit right.State I A)) :=
  List.zipWithAll Prod.mk (left.visits inputs) (right.visits inputs)

theorem length_turns (inputs : List I) :
    (left.turns right inputs).length =
      max (left.visits inputs).length (right.visits inputs).length :=
  length_zipWithAll ..

theorem getElem?_turns (inputs : List I) {j : Nat} (bound : j < (left.turns right inputs).length) :
    (left.turns right inputs)[j]? = some ((left.visits inputs)[j]?, (right.visits inputs)[j]?) := by
  rw [length_turns] at bound
  rw [turns, List.getElem?_zipWithAll]
  cases ours : (left.visits inputs)[j]? with
  | some visit => rfl
  | none =>
      cases theirs : (right.visits inputs)[j]? with
      | some visit => rfl
      | none =>
          have short := List.getElem?_eq_none_iff.mp ours
          have short' := List.getElem?_eq_none_iff.mp theirs
          omega

def OrEntries (join : Option O → Option A → B)
    (joinDelay : Option Duration → Option Duration → Duration) (inputs : List I)
    (entries : List (Entry B)) : Prop :=
  entries.length = max (left.run inputs).run.length (right.run inputs).run.length ∧
    ∀ j < entries.length, entries[j]? =
      some (orEntry join joinDelay (left.run inputs).run[j]? (right.run inputs).run[j]?)

theorem orWithDelay_entries (join : Option O → Option A → B)
    (joinDelay : Option Duration → Option Duration → Duration) (inputs : List I) :
    left.OrEntries right join joinDelay inputs
      ((orWithDelay (m := Id) left right join joinDelay).run inputs).run := by
  have alone : (left.run inputs).run = (left.visits inputs).map Visit.entry :=
    left.run_eq_visits inputs
  have alone' : (right.run inputs).run = (right.visits inputs).map Visit.entry :=
    right.run_eq_visits inputs
  have shown : ((orWithDelay (m := Id) left right join joinDelay).run inputs).run =
      (left.turns right inputs).map fun turn =>
        orEntry join joinDelay (turn.1.map Visit.entry) (turn.2.map Visit.entry) := by
    calc
      _ = ((left.turns right inputs).mapM (orTurn (m := Id) (fun _ _ => ()) (fun _ _ => ())
          join (eitherDelay (m := Id) joinDelay))).run :=
        left.orWithDelay_runFrom right (m := Id) _ _ join joinDelay inputs rfl
      _ = (left.turns right inputs).map (orTurn (m := Id) (fun _ _ => ()) (fun _ _ => ())
          join (eitherDelay (m := Id) joinDelay)) := List.idRun_mapM
      _ = _ := List.map_congr_left fun turn _ => orTurn_eq_orEntry join joinDelay turn
  rw [OrEntries, shown, alone, alone', List.length_map, List.length_map, List.length_map]
  refine ⟨left.length_turns right inputs, ?_⟩
  intro j bound
  rw [List.getElem?_map, left.getElem?_turns right inputs bound, List.getElem?_map,
    List.getElem?_map]
  rfl

/-- The law of `or`. Where closures only answer, an entry joins those of the two runs alone.
Whatever they do besides, and whether they answer or break off, it is done turn by turn, and turn
`j` takes step `j` of either run alone. The shortest delay is waited unless a closure joins them. -/
theorem or_runs (inputs : List I) :
    (∀ (join : Option O → Option A → B) (joinDelay : Option Duration → Option Duration → Duration),
      left.OrEntries right join joinDelay inputs
        ((orWithDelay (m := Id) left right join joinDelay).run inputs).run) ∧
    (∀ (actLeft : left.State → I → m Unit) (actRight : right.State → I → m Unit)
      (join : Option O → Option A → m B)
      (joinDelay : Option Duration → Option Duration → m Duration),
      ((left.acting actLeft).orWithDelay (right.acting actRight) join joinDelay).run inputs =
        (left.turns right inputs).mapM (orTurn actLeft actRight join (eitherDelay joinDelay)) ∧
      ((left.acting actLeft).orWith (right.acting actRight) join).run inputs =
        (left.turns right inputs).mapM (orTurn actLeft actRight join leastDelay) ∧
      ((left.acting actLeft).or (right.acting actRight)).run inputs =
        (left.turns right inputs).mapM
          (orTurn actLeft actRight (fun output output' => pure (output, output')) leastDelay)) ∧
    (left.turns right inputs).length =
      max (left.visits inputs).length (right.visits inputs).length ∧
    (∀ j < (left.turns right inputs).length,
      (left.turns right inputs)[j]? = some ((left.visits inputs)[j]?, (right.visits inputs)[j]?)) ∧
    (left.visits inputs).map Visit.input <+: inputs ∧
    (right.visits inputs).map Visit.input <+: inputs := by
  refine ⟨fun join joinDelay => left.orWithDelay_entries right join joinDelay inputs, ?_,
    left.length_turns right inputs, fun j => left.getElem?_turns right inputs,
    left.visitsFrom_inputs _ _, right.visitsFrom_inputs _ _⟩
  intro actLeft actRight join joinDelay
  have least : eitherDelay (fun a b => pure (Duration.merge min a b) : _ → _ → m Duration) =
      leastDelay := by
    funext delay delay'
    exact eitherDelay_merge_min delay delay'
  refine ⟨left.orWithDelay_runFrom right actLeft actRight join joinDelay inputs rfl, ?_, ?_⟩
  · rw [← least]
    exact left.orWithDelay_runFrom right actLeft actRight join _ inputs rfl
  · rw [← least]
    exact left.orWithDelay_runFrom right actLeft actRight
      (fun output output' => pure (output, output')) (fun a b => pure (Duration.merge min a b))
      inputs rfl

theorem or_runs_recurs :
    (((recurs 1).acting fun (_ : Nat) (_ : Unit) => Session.trace "left" []).or
      ((recurs 3).acting fun (_ : Nat) (_ : Unit) => Session.trace "right" [])).run
        (List.replicate 10 ()) =
      ((recurs 1).turns (recurs 3) (List.replicate 10 ())).mapM
        (orTurn (fun _ _ => Session.trace "left" []) (fun _ _ => Session.trace "right" [])
          (fun output output' => pure (output, output')) leastDelay) ∧
    ((recurs 1).turns (recurs 3) (List.replicate 10 ())).length = 4 := by
  have law := or_runs (m := Effect) (B := Option Nat × Option Nat) (recurs 1) (recurs 3)
    (List.replicate 10 ())
  exact ⟨(law.2.1 _ _ (fun output output' => pure (output, output'))
    fun _ _ => pure .zero).2.2, rfl⟩

end Schedule
end Cadence
