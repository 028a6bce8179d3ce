import Cadence.Proofs.Visit
import Cadence.Schedule.Combine

/-!
Two schedules in lockstep: every step of the one is followed by a step of the other, and the run ends
with the shorter of the two. What the second is given may depend on what the first one shows, so both
`and` and `pipe` go in lockstep.
-/
namespace Cadence

open Schedule (Entry)

variable {m : Type → Type} [Monad m] {L R I J O A B : Type}

/-- The delay of a turn on which both sides go on. If either is done it is the last turn, and no
delays are joined. -/
def bothDelay (joinDelay : Duration → Duration → m Duration) :
    Option Duration → Option Duration → m (Option Duration)
  | some delay, some delay' => some <$> joinDelay delay delay'
  | _, _ => pure none

/-- A turn steps both sides, the left one first, and joins what they show. -/
def bothTurn (actLeft : L → I → m Unit) (actRight : R → J → m Unit) (join : O → A → m B)
    (joinDelay : Duration → Duration → m Duration) (turn : Visit L I O × Visit R J A) :
    m (Entry B) := do
  actLeft turn.1.state turn.1.input
  actRight turn.2.state turn.2.input
  let output ← join turn.1.output turn.2.output
  let delay ← bothDelay joinDelay turn.1.delay? turn.2.delay?
  return (output, delay)

def bothEntry (join : O → A → B) (joinDelay : Duration → Duration → Duration) (ours : Entry O)
    (theirs : Entry A) : Entry B :=
  (join ours.1 theirs.1,
    match ours.2, theirs.2 with
    | some delay, some delay' => some (joinDelay delay delay')
    | _, _ => none)

theorem bothTurn_eq_bothEntry (join : O → A → B) (joinDelay : Duration → Duration → Duration)
    (turn : Visit L I O × Visit R J A) :
    bothTurn (m := Id) (fun _ _ => ()) (fun _ _ => ()) join joinDelay turn =
      bothEntry join joinDelay turn.1.entry turn.2.entry := by
  obtain ⟨⟨_, _, _ | _⟩, _, _, _ | _⟩ := turn <;> rfl

theorem mapM_bothTurn_eq_zipWith (join : O → A → B) (joinDelay : Duration → Duration → Duration)
    (ours : List (Visit L I O)) (theirs : List (Visit R J A)) :
    ((ours.zip theirs).mapM
        (bothTurn (m := Id) (fun _ _ => ()) (fun _ _ => ()) join joinDelay)).run =
      List.zipWith (bothEntry join joinDelay) (ours.map Visit.entry)
        (theirs.map Visit.entry) := by
  calc
    _ = (ours.zip theirs).map (bothTurn (m := Id) (fun _ _ => ()) (fun _ _ => ()) join joinDelay) :=
      List.idRun_mapM
    _ = (ours.zip theirs).map fun turn => bothEntry join joinDelay turn.1.entry turn.2.entry :=
      List.map_congr_left fun turn _ => bothTurn_eq_bothEntry join joinDelay turn
    _ = _ := by rw [List.zipWith_map, List.zip, List.map_zipWith]

namespace Schedule

/-- Steps the left side and then the right one, on what `feed` makes of the input and the output of
the left side. -/
def lockstep (left : Schedule m I O) (right : Schedule m J A) (feed : I → O → J)
    (join : O → A → m B) (joinDelay : Duration → Duration → m Duration) : Schedule m I B where
  State := left.State × right.State
  start := (left.start, right.start)
  step
    | (leftState, rightState), input => do
        let ours ← left.step leftState input
        let theirs ← right.step rightState (feed input ours.output)
        let output ← join ours.output theirs.output
        match ours, theirs with
        | .proceed _ delay next, .proceed _ delay' next' =>
            return .proceed output (← joinDelay delay delay') (next, next')
        | _, _ => return .done output

theorem lockstep_step {left : Schedule m I O} {right : Schedule m J A} (feed : I → O → J)
    (join : O → A → m B) (joinDelay : Duration → Duration → m Duration) (state : left.State)
    (state' : right.State) (input : I) :
    (left.lockstep right feed join joinDelay).step (state, state') input = (do
      let ours ← left.step state input
      let theirs ← right.step state' (feed input ours.output)
      let output ← join ours.output theirs.output
      match ours, theirs with
      | .proceed _ delay next, .proceed _ delay' next' =>
          return .proceed output (← joinDelay delay delay') (next, next')
      | _, _ => return .done output) := rfl

theorem andWithDelay_eq_lockstep (left : Schedule m I O) (right : Schedule m I A)
    (join : O → A → m B) (joinDelay : Duration → Duration → m Duration) :
    left.andWithDelay right join joinDelay =
      left.lockstep right (fun input _ => input) join joinDelay := by
  simp only [andWithDelay, lockstep]
  congr 1
  funext (state, state') input
  refine bind_congr fun ours => bind_congr fun theirs => bind_congr fun output => ?_
  cases ours <;> cases theirs <;> rfl

variable [LawfulMonad m]

theorem pipe_eq_lockstep (left : Schedule m I O) (right : Schedule m O A) :
    left.pipe right =
      left.lockstep right (fun _ output => output) (fun _ output => pure output)
        fun delay delay' => pure (delay + delay') := by
  simp only [pipe, lockstep, pure_bind]
  congr 1
  funext (state, state') input
  refine bind_congr fun ours => bind_congr fun theirs => ?_
  cases ours <;> cases theirs <;> rfl

variable (left : Schedule Id I O) (right : Schedule Id J A)

def fedVisits (feed : I → O → J) (visits : List (Visit left.State I O))
    (place : Option right.State) : List (Visit right.State J A) :=
  right.visitsFrom place (visits.map fun visit => feed visit.input visit.output)

theorem lockstep_runFrom (feed : I → O → J) (actLeft : left.State → I → m Unit)
    (actRight : right.State → J → m Unit) (join : O → A → m B)
    (joinDelay : Duration → Duration → m Duration) (inputs : List I) (state : left.State)
    (state' : right.State) :
    ((left.acting actLeft).lockstep (right.acting actRight) feed join joinDelay).runFrom
        (state, state') inputs =
      ((left.visitsFrom (some state) inputs).zip (left.fedVisits right feed
        (left.visitsFrom (some state) inputs) (some state'))).mapM
          (bothTurn actLeft actRight join joinDelay) := by
  induction inputs generalizing state state' with
  | nil => simp [runFrom]
  | cons input inputs ih =>
      simp only [runFrom]
      rw [lockstep_step, fedVisits, visitsFrom_cons, List.map_cons, visitsFrom_cons,
        List.zip_cons_cons, List.mapM_cons]
      simp only [acting, bothTurn, bind_assoc, pure_bind, Visit.output_mk, Visit.delay?_mk]
      generalize (left.step state input : Decision left.State O) = ours
      generalize (right.step state' (feed input ours.output) : Decision right.State A) = theirs
      refine bind_congr fun _ => bind_congr fun _ => ?_
      -- Each side goes on or is done on this step.
      cases ours <;> cases theirs <;>
        simp [bothDelay, ih, fedVisits]

end Schedule
end Cadence
