import Cadence.Proofs.RunEnd
import Cadence.Schedule.Combine
import Cadence.Schedule.Primitive
import Cadence.Schedule.Transform
import Cadence.Session

namespace Cadence

open Schedule (Entry)

variable {m : Type → Type} [Monad m] {S T I O A B C : Type}

/-- What the second schedule is given when the first one is done at a place: the input of that place,
and those after the next one. -/
def handedOver (inputs : List I) : (place : Option Nat) → List I
  | none => []
  | some place =>
      match inputs.drop place with
      | completing :: _ :: later => completing :: later
      | _ => []

def relayed (entries : List (Entry O)) : List (Entry O) :=
  entries.map fun (output, delay?) => (output, some (delay?.getD .zero))

theorem handedOver_cons (input : I) (inputs : List I) (place : Option Nat) :
    handedOver (input :: inputs) (place.map (· + 1)) = handedOver inputs place := by
  cases place <;> rfl

namespace Schedule

variable (left : Schedule m I O) (right : Schedule m I A) (first : O → m B) (second : A → m B)

theorem map_step (state : left.State) (input : I) :
    (left.map first).step state input = (do
      match ← left.step state input with
      | .done output => return .done (← first output)
      | .proceed output delay next => return .proceed (← first output) delay next) := rfl

theorem andThenWith_step_first (state : left.State) (input : I) :
    (left.andThenWith right first second).step (.first state) input = (do
      match ← left.step state input with
      | .done output => return .proceed (← first output) .zero (.handOver input)
      | .proceed output delay next => return .proceed (← first output) delay (.first next)) := rfl

theorem andThenWith_step_second (state : right.State) (input : I) :
    (left.andThenWith right first second).step (.second state) input = (do
      match ← right.step state input with
      | .done output => return .done (← second output)
      | .proceed output delay next => return .proceed (← second output) delay (.second next)) := rfl

theorem andThenWith_step_handOver (completing input : I) :
    (left.andThenWith right first second).step (.handOver completing) input =
      (left.andThenWith right first second).step (.second right.start) completing := rfl

variable [LawfulMonad m]

theorem andThenWith_runFrom_second (inputs : List I) (state : right.State) :
    (left.andThenWith right first second).runFrom (.second state) inputs =
      (right.map second).runFrom state inputs := by
  induction inputs generalizing state with
  | nil => rfl
  | cons input inputs ih =>
      simp only [runFrom]
      rw [andThenWith_step_second, map_step]
      simp only [bind_assoc]
      refine bind_congr fun decision => ?_
      cases decision with
      | done output => simp only [bind_assoc, pure_bind]
      | proceed output delay next => simp only [bind_assoc, pure_bind, ih]

theorem andThenWith_runFrom_handOver (completing input : I) (inputs : List I) :
    (left.andThenWith right first second).runFrom (.handOver completing) (input :: inputs) =
      (right.map second).run (completing :: inputs) := by
  have entered :=
    left.andThenWith_runFrom_second right first second (completing :: inputs) right.start
  simp only [runFrom] at entered ⊢
  rw [andThenWith_step_handOver]
  exact entered

theorem andThenWith_runFrom_first (inputs : List I) (state : left.State) :
    (left.andThenWith right first second).runFrom (.first state) inputs = (do
      let ours ← (left.map first).runFrom state inputs
      let theirs ← (right.map second).run (handedOver inputs (endPlace? ours))
      return relayed ours ++ theirs) := by
  induction inputs generalizing state with
  | nil => simp [runFrom, run, endPlace?, handedOver, relayed]
  | cons input inputs ih =>
      simp only [runFrom]
      rw [andThenWith_step_first, map_step]
      simp only [bind_assoc]
      refine bind_congr fun decision => ?_
      cases decision with
      | done output =>
          simp only [bind_assoc, pure_bind, endPlace?_cons_done]
          refine bind_congr fun shown => ?_
          cases inputs with
          | nil => simp [runFrom, run, handedOver, relayed]
          | cons ignored inputs =>
              rw [andThenWith_runFrom_handOver]
              rfl
      | proceed output delay next =>
          simp only [bind_assoc, pure_bind, endPlace?_cons_proceed, handedOver_cons, ih]
          rfl

end Schedule

/-- A step of one side acts, and then what it shows is projected, once. -/
def leg (act : S → I → m Unit) (project : O → m B) (visit : Visit S I O) : m (Entry B) := do
  act visit.state visit.input
  return (← project visit.output, visit.delay?)

section Leg

variable [LawfulMonad m] (act : S → I → m Unit) (project : O → m B)

theorem mapM_leg_endPlace? (visits : List (Visit S I O))
    (next : List (Entry B) → Option Nat → m C) :
    (do let entries ← visits.mapM (leg act project); next entries (endPlace? entries)) = (do
      let entries ← visits.mapM (leg act project)
      next entries (endPlace? (visits.map Visit.entry))) := by
  induction visits generalizing next with
  | nil => simp [endPlace?]
  | cons visit visits ih =>
      obtain ⟨state, input, decision⟩ := visit
      simp only [List.mapM_cons, leg, List.map_cons, bind_assoc, pure_bind]
      refine bind_congr fun _ => bind_congr fun shown => ?_
      cases decision with
      | done output =>
          simp [Visit.entry, endPlace?_cons_done]
      | proceed output delay rest =>
          have later := ih fun entries place =>
            next ((shown, some delay) :: entries) (place.map (· + 1))
          simpa [Visit.entry, endPlace?_cons_proceed] using later

theorem mapM_leg_eq_map (project : O → B) (visits : List (Visit S I O)) :
    (visits.mapM (leg (m := Id) (fun _ _ => ()) project)).run =
      (visits.map Visit.entry).map (Prod.map project id) := by
  rw [List.map_map]
  exact List.idRun_mapM

end Leg

namespace Schedule

variable [LawfulMonad m] (left : Schedule Id I O) (right : Schedule Id I A)

theorem map_acting_runFrom (act : left.State → I → m Unit) (project : O → m B) (inputs : List I)
    (state : left.State) :
    ((left.acting act).map project).runFrom state inputs =
      (left.visitsFrom (some state) inputs).mapM (leg act project) := by
  induction inputs generalizing state with
  | nil => simp [runFrom]
  | cons input inputs ih =>
      simp only [runFrom]
      rw [map_step, visitsFrom_cons, List.mapM_cons, leg]
      simp only [acting, bind_assoc, pure_bind, Visit.output_mk, Visit.delay?_mk]
      generalize (left.step state input : Decision left.State O) = decision
      refine bind_congr fun _ => ?_
      cases decision <;> simp [ih]

def relayDecision (first : O → B) (input : I) :
    Decision left.State O → Decision (Relay left.State right.State I) B
  | .done output => .proceed (first output) .zero (.handOver input)
  | .proceed output delay next => .proceed (first output) delay (.first next)

def relayVisit (first : O → B) (visit : Visit left.State I O) :
    Visit (Relay left.State right.State I) I B :=
  ⟨.first visit.state, visit.input, left.relayDecision right first visit.input visit.decision⟩

theorem andThenWith_relays (first : O → B) (second : A → B) (state : left.State) (input : I) :
    (andThenWith (m := Id) left right first second).step (.first state) input =
      left.relayDecision right first input (left.step state input) := by
  rw [andThenWith_step_first]
  cases decided : (left.step state input : Decision left.State O) <;> rfl

theorem relayVisit_prefix (first : O → B) (second : A → B) (inputs : List I)
    (state : left.State) :
    (left.visitsFrom (some state) inputs).map (left.relayVisit right first) <+:
      (andThenWith (m := Id) left right first second).visitsFrom (some (.first state)) inputs := by
  induction inputs generalizing state with
  | nil => exact List.nil_prefix
  | cons input inputs ih =>
      have visited : (andThenWith (m := Id) left right first second).visitsFrom
            (some (.first state)) (input :: inputs) =
          ⟨.first state, input, left.relayDecision right first input (left.step state input)⟩ ::
            (andThenWith (m := Id) left right first second).visitsFrom
              (left.relayDecision right first input (left.step state input)).next? inputs := by
        rw [← andThenWith_relays left right first second]
        rfl
      rw [visited, visitsFrom_cons, List.map_cons]
      refine (List.prefix_cons_inj _).mpr ?_
      cases (left.step state input : Decision left.State O) with
      | done output =>
          rw [Decision.next?, visitsFrom_none]
          exact List.nil_prefix
      | proceed output delay next => exact ih next

theorem andThenWith_acting_run (actLeft : left.State → I → m Unit)
    (actRight : right.State → I → m Unit) (first : O → m B) (second : A → m B)
    (inputs : List I) :
    ((left.acting actLeft).andThenWith (right.acting actRight) first second).run inputs = (do
      let ours ← (left.visits inputs).mapM (leg actLeft first)
      let theirs ← (right.visits (handedOver inputs (endPlace? (left.run inputs).run))).mapM
        (leg actRight second)
      return relayed ours ++ theirs) := by
  have alone : (left.run inputs).run = (left.visits inputs).map Visit.entry :=
    left.run_eq_visits inputs
  have earlier : ((left.acting actLeft).map first).run inputs =
      (left.visits inputs).mapM (leg actLeft first) :=
    left.map_acting_runFrom actLeft first inputs left.start
  have later (handed : List I) : ((right.acting actRight).map second).run handed =
      (right.visits handed).mapM (leg actRight second) :=
    right.map_acting_runFrom actRight second handed right.start
  calc
    _ = (do
        let ours ← ((left.acting actLeft).map first).run inputs
        let theirs ← ((right.acting actRight).map second).run (handedOver inputs (endPlace? ours))
        return relayed ours ++ theirs) :=
      (left.acting actLeft).andThenWith_runFrom_first (right.acting actRight) first second inputs
        left.start
    _ = (do
        let ours ← (left.visits inputs).mapM (leg actLeft first)
        let theirs ← (right.visits (handedOver inputs (endPlace? ours))).mapM (leg actRight second)
        return relayed ours ++ theirs) := by simp only [earlier, later]
    _ = _ := by
      rw [alone]
      exact mapM_leg_endPlace? actLeft first (left.visits inputs) fun ours place => do
        let theirs ← (right.visits (handedOver inputs place)).mapM (leg actRight second)
        return relayed ours ++ theirs

theorem andThenWith_entries (first : O → B) (second : A → B) (inputs : List I) :
    ((andThenWith (m := Id) left right first second).run inputs).run =
      relayed ((left.run inputs).run.map (Prod.map first id)) ++
        (right.run (handedOver inputs (endPlace? (left.run inputs).run))).run.map
          (Prod.map second id) := by
  have alone : (left.run inputs).run = (left.visits inputs).map Visit.entry :=
    left.run_eq_visits inputs
  have alone' (handed : List I) :
      (right.run handed).run = (right.visits handed).map Visit.entry :=
    right.run_eq_visits handed
  have run := congrArg Id.run
    (left.andThenWith_acting_run (m := Id) right (fun _ _ => ()) (fun _ _ => ()) first second
      inputs)
  rw [alone']
  calc
    _ = _ := run
    _ = relayed ((left.visits inputs).mapM (leg (m := Id) (fun _ _ => ()) first)).run ++
        ((right.visits (handedOver inputs (endPlace? (left.run inputs).run))).mapM
          (leg (m := Id) (fun _ _ => ()) second)).run := rfl
    _ = _ := by rw [mapM_leg_eq_map, mapM_leg_eq_map, ← alone]

/-- The law of `andThen`. The run is that of the first schedule, projected, and where that is done at
some place, of the second one on what is handed over there; the entry of that place goes on without
delay. This holds whatever steps and projections do. What they do is done leg by leg, so each
projection is called once for each step of its side, after it; and where the schedule hands over, it
does the same whatever it is given. -/
theorem andThen_runs (inputs : List I) :
    (∀ (first : O → B) (second : A → B),
      ((andThenWith (m := Id) left right first second).run inputs).run =
        relayed ((left.run inputs).run.map (Prod.map first id)) ++
          (right.run (handedOver inputs (endPlace? (left.run inputs).run))).run.map
            (Prod.map second id) ∧
      (left.visits inputs).map (left.relayVisit right first) <+:
        (andThenWith (m := Id) left right first second).visits inputs) ∧
    (∀ place, endPlace? (left.run inputs).run = some place →
      (left.run inputs).run.length = place + 1) ∧
    (∀ (actLeft : left.State → I → m Unit) (actRight : right.State → I → m Unit)
      (first : O → m B) (second : A → m B),
      ((left.acting actLeft).andThenWith (right.acting actRight) first second).run inputs = (do
        let ours ← (left.visits inputs).mapM (leg actLeft first)
        let theirs ← (right.visits (handedOver inputs (endPlace? (left.run inputs).run))).mapM
          (leg actRight second)
        return relayed ours ++ theirs)) ∧
    (∀ (earlier : Schedule m I O) (later : Schedule m I A) (first : O → m B) (second : A → m B),
      (earlier.andThenWith later first second).run inputs = (do
        let ours ← (earlier.map first).run inputs
        let theirs ← (later.map second).run (handedOver inputs (endPlace? ours))
        return relayed ours ++ theirs) ∧
      ∀ completing input input',
        (earlier.andThenWith later first second).step (.handOver completing) input =
          (earlier.andThenWith later first second).step (.handOver completing) input') := by
  refine ⟨?_, left.endsDone_run inputs, ?_, ?_⟩
  · intro first second
    exact ⟨left.andThenWith_entries right first second inputs,
      left.relayVisit_prefix right first second inputs left.start⟩
  · intro actLeft actRight first second
    exact left.andThenWith_acting_run right actLeft actRight first second inputs
  · intro earlier later first second
    exact ⟨earlier.andThenWith_runFrom_first later first second inputs earlier.start,
      fun _ _ _ => rfl⟩

theorem andThen_runs_recurs :
    (((recurs 1).acting fun (_ : Nat) (_ : Nat) => Session.trace "left" []).andThenWith
      (identity.acting fun (_ : Unit) (_ : Nat) => Session.trace "right" [])
      (fun count => do Session.trace "first" []; return count)
      (fun count => do Session.trace "second" []; return count)).run [0, 1, 2, 3, 4] = (do
        let ours ← ((recurs 1).visits [0, 1, 2, 3, 4]).mapM
          (leg (fun _ _ => Session.trace "left" []) fun count => do
            Session.trace "first" []; return count)
        let theirs ← (identity.visits [1, 3, 4]).mapM
          (leg (fun _ _ => Session.trace "right" []) fun count => do
            Session.trace "second" []; return count)
        return relayed ours ++ theirs) :=
  (andThen_runs (m := Effect) (recurs 1) identity [0, 1, 2, 3, 4]).2.2.1 _ _ _ _

end Schedule
end Cadence
