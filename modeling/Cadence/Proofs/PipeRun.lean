import Cadence.Proofs.Lockstep
import Cadence.Schedule.Primitive
import Cadence.Session

namespace Cadence

open Schedule (Entry)

variable {m : Type → Type} [Monad m] {I O A : Type}

def summedDelay (delay delay' : Duration) : Duration where
  nanos := min (delay.nanos + delay'.nanos) Duration.maxNanos
  nanos_le := Nat.min_le_right ..

def pipeEntry (ours : Entry O) (theirs : Entry A) : Entry A :=
  (theirs.1,
    match ours.2, theirs.2 with
    | some delay, some delay' => some (summedDelay delay delay')
    | _, _ => none)

def pipeTurn {L R : Type} (actLeft : L → I → m Unit) (actRight : R → O → m Unit)
    (turn : Visit L I O × Visit R O A) : m (Entry A) := do
  actLeft turn.1.state turn.1.input
  actRight turn.2.state turn.2.input
  return pipeEntry turn.1.entry turn.2.entry

theorem pipeTurn_eq_bothTurn [LawfulMonad m] {L R : Type} (actLeft : L → I → m Unit)
    (actRight : R → O → m Unit) :
    bothTurn actLeft actRight (fun (_ : O) (output : A) => pure output)
      (fun delay delay' => pure (summedDelay delay delay')) = pipeTurn actLeft actRight := by
  funext ⟨⟨state, input, ours⟩, state', fed, theirs⟩
  simp only [bothTurn, pipeTurn, pure_bind]
  refine bind_congr fun _ => bind_congr fun _ => ?_
  cases ours <;> cases theirs <;>
    simp [pipeEntry, bothDelay, Visit.entry]

namespace Schedule

variable [LawfulMonad m] (left : Schedule Id I O) (right : Schedule Id O A)

def pipedVisits (inputs : List I) : List (Visit right.State O A) :=
  right.visits ((left.visits inputs).map Visit.output)

/-- The turns of a pipe: turn `j` takes step `j` of either run. -/
abbrev pipeTurns (inputs : List I) : List (Visit left.State I O × Visit right.State O A) :=
  (left.visits inputs).zip (left.pipedVisits right inputs)

theorem pipe_run (actLeft : left.State → I → m Unit) (actRight : right.State → O → m Unit)
    (inputs : List I) :
    ((left.acting actLeft).pipe (right.acting actRight)).run inputs =
      (left.pipeTurns right inputs).mapM (pipeTurn actLeft actRight) := by
  rw [pipe_eq_lockstep, ← pipeTurn_eq_bothTurn]
  exact left.lockstep_runFrom right (fun _ output => output) actLeft actRight _ _ inputs
    left.start right.start

theorem length_pipeTurns (inputs : List I) :
    (left.pipeTurns right inputs).length = (left.pipedVisits right inputs).length := by
  have shorter : (left.pipedVisits right inputs).length ≤ (left.visits inputs).length := by
    have fed := right.length_visits_le ((left.visits inputs).map Visit.output)
    rwa [List.length_map] at fed
  rw [List.length_zip, Nat.min_eq_right shorter]

def PipeEntries (inputs : List I) (entries : List (Entry A)) : Prop :=
  entries.length = (right.run ((left.run inputs).run.map (·.1))).run.length ∧
    entries = List.zipWith pipeEntry (left.run inputs).run
      (right.run ((left.run inputs).run.map (·.1))).run

theorem pipe_entries (inputs : List I) :
    left.PipeEntries right inputs ((pipe (m := Id) left right).run inputs).run := by
  have alone : (left.run inputs).run = (left.visits inputs).map Visit.entry :=
    left.run_eq_visits inputs
  have shown : (left.run inputs).run.map (·.1) = (left.visits inputs).map Visit.output := by
    rw [alone, List.map_map]
    rfl
  have piped : (right.run ((left.visits inputs).map Visit.output)).run =
      (left.pipedVisits right inputs).map Visit.entry := right.run_eq_visits _
  have joined : ((pipe (m := Id) left right).run inputs).run =
      List.zipWith pipeEntry ((left.visits inputs).map Visit.entry)
        ((left.pipedVisits right inputs).map Visit.entry) := by
    calc
      _ = ((left.pipeTurns right inputs).mapM
          (pipeTurn (m := Id) (fun _ _ => ()) (fun _ _ => ()))).run :=
        congrArg Id.run (left.pipe_run (m := Id) right _ _ inputs)
      _ = List.zipWith (bothEntry (fun _ output => output) summedDelay) _ _ := by
        rw [← pipeTurn_eq_bothTurn]
        exact mapM_bothTurn_eq_zipWith (fun _ output => output) summedDelay _ _
  have length := left.length_pipeTurns right inputs
  rw [List.length_zip] at length
  rw [PipeEntries, shown, alone, piped, joined]
  refine ⟨?_, rfl⟩
  rw [List.length_zipWith, List.length_map, List.length_map, length]

/-- The law of `pipe`. Where steps only answer, the run is that of the right side on the outputs of
the left one, with the delays of both, up to the first side that is done. Whatever steps do besides,
and whether they answer or break off, it is done turn by turn: turn `j` takes step `j` of either run,
also the last of them, and neither run is taken further. -/
theorem pipe_runs (inputs : List I) :
    left.PipeEntries right inputs ((pipe (m := Id) left right).run inputs).run ∧
    (∀ (actLeft : left.State → I → m Unit) (actRight : right.State → O → m Unit),
      ((left.acting actLeft).pipe (right.acting actRight)).run inputs =
        (left.pipeTurns right inputs).mapM (pipeTurn actLeft actRight)) ∧
    (left.pipeTurns right inputs).length = (left.pipedVisits right inputs).length ∧
    (left.visits inputs).map Visit.input <+: inputs ∧
    (left.pipedVisits right inputs).map Visit.input <+: (left.visits inputs).map Visit.output :=
  ⟨left.pipe_entries right inputs,
    fun actLeft actRight => left.pipe_run right actLeft actRight inputs,
    left.length_pipeTurns right inputs, left.visitsFrom_inputs _ _, right.visitsFrom_inputs _ _⟩

theorem pipe_runs_recurs :
    (((recurs 5).acting fun (_ : Nat) (_ : Unit) => Session.trace "left" []).pipe
      ((recurs 2).acting fun (_ : Nat) (_ : Nat) => Session.trace "right" [])).run
        (List.replicate 10 ()) =
      ((recurs 5).pipeTurns (recurs 2) (List.replicate 10 ())).mapM
        (pipeTurn (fun _ _ => Session.trace "left" []) fun _ _ => Session.trace "right" []) ∧
    ((recurs 5).pipeTurns (recurs (m := Id) 2) (List.replicate 10 ())).length = 3 :=
  ⟨(pipe_runs (m := Effect) (recurs 5) (recurs 2) (List.replicate 10 ())).2.1 _ _, rfl⟩

end Schedule
end Cadence
