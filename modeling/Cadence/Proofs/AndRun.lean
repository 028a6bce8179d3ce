import Cadence.Proofs.Lockstep
import Cadence.Schedule.Primitive
import Cadence.Session

namespace Cadence

open Schedule (Entry)

variable {m : Type → Type} [Monad m] {I O A B : Type}

def longerDelay (delay delay' : Duration) : m Duration := pure (max delay delay')

namespace Schedule

theorem zip_fedVisits (left : Schedule Id I O) (right : Schedule Id I A) (inputs : List I) :
    (left.visits inputs).zip
        (left.fedVisits right (fun input _ => input) (left.visits inputs) (some right.start)) =
      (left.visits inputs).zip (right.visits inputs) := by
  have stepped : (left.visits inputs).map Visit.input =
      inputs.take (left.visits inputs).length := by
    have beginning := List.prefix_iff_eq_take.mp (left.visitsFrom_inputs (some left.start) inputs)
    rwa [List.length_map] at beginning
  calc
    _ = (left.visits inputs).zip
        (right.visitsFrom (some right.start) ((left.visits inputs).map Visit.input)) := rfl
    _ = (left.visits inputs).zip
        ((right.visits inputs).take (left.visits inputs).length) := by
      rw [stepped, visitsFrom_take]
      rfl
    _ = ((left.visits inputs).zip (right.visits inputs)).take (left.visits inputs).length := by
      rw [List.zip, List.take_zipWith, List.take_length]
    _ = (left.visits inputs).zip (right.visits inputs) := by
      apply List.take_of_length_le
      rw [List.length_zip]
      exact Nat.min_le_left ..

variable [LawfulMonad m] (left : Schedule Id I O) (right : Schedule Id I A)

abbrev bothTurns (inputs : List I) : List (Visit left.State I O × Visit right.State I A) :=
  (left.visits inputs).zip (right.visits inputs)

theorem andWithDelay_run (actLeft : left.State → I → m Unit) (actRight : right.State → I → m Unit)
    (join : O → A → m B) (joinDelay : Duration → Duration → m Duration) (inputs : List I) :
    ((left.acting actLeft).andWithDelay (right.acting actRight) join joinDelay).run inputs =
      (left.bothTurns right inputs).mapM (bothTurn actLeft actRight join joinDelay) := by
  rw [andWithDelay_eq_lockstep, bothTurns, ← zip_fedVisits]
  exact left.lockstep_runFrom right (fun input _ => input) actLeft actRight join joinDelay inputs
    left.start right.start

theorem andWithDelay_entries (join : O → A → B) (joinDelay : Duration → Duration → Duration)
    (inputs : List I) :
    ((andWithDelay (m := Id) left right join joinDelay).run inputs).run =
      List.zipWith (bothEntry join joinDelay) (left.run inputs).run (right.run inputs).run := by
  have alone : (left.run inputs).run = (left.visits inputs).map Visit.entry :=
    left.run_eq_visits inputs
  have alone' : (right.run inputs).run = (right.visits inputs).map Visit.entry :=
    right.run_eq_visits inputs
  rw [alone, alone', ← mapM_bothTurn_eq_zipWith]
  exact congrArg Id.run (left.andWithDelay_run (m := Id) right _ _ join joinDelay inputs)

/-- The law of `and`. Where closures only answer, an entry joins those of the two runs alone, up to
the end of the shorter one. Whatever they do besides, and whether they answer or break off, it is done
turn by turn: turn `j` takes step `j` of either run alone, also the last of them, and neither run is
taken further. The longer delay is waited unless a closure joins them. -/
theorem and_runs (inputs : List I) :
    (∀ (join : O → A → B) (joinDelay : Duration → Duration → Duration),
      ((andWithDelay (m := Id) left right join joinDelay).run inputs).run.length =
        min (left.run inputs).run.length (right.run inputs).run.length ∧
      ((andWithDelay (m := Id) left right join joinDelay).run inputs).run =
        List.zipWith (bothEntry join joinDelay) (left.run inputs).run (right.run inputs).run) ∧
    (∀ (actLeft : left.State → I → m Unit) (actRight : right.State → I → m Unit)
      (join : O → A → m B) (joinDelay : Duration → Duration → m Duration),
      ((left.acting actLeft).andWithDelay (right.acting actRight) join joinDelay).run inputs =
        (left.bothTurns right inputs).mapM (bothTurn actLeft actRight join joinDelay) ∧
      ((left.acting actLeft).andWith (right.acting actRight) join).run inputs =
        (left.bothTurns right inputs).mapM (bothTurn actLeft actRight join longerDelay) ∧
      ((left.acting actLeft).and (right.acting actRight)).run inputs =
        (left.bothTurns right inputs).mapM
          (bothTurn actLeft actRight (fun output output' => pure (output, output')) longerDelay) ∧
      ((left.acting actLeft).zipLeft (right.acting actRight)).run inputs =
        (left.bothTurns right inputs).mapM
          (bothTurn actLeft actRight (fun output _ => pure output) longerDelay) ∧
      ((left.acting actLeft).zipRight (right.acting actRight)).run inputs =
        (left.bothTurns right inputs).mapM
          (bothTurn actLeft actRight (fun _ output => pure output) longerDelay)) ∧
    (left.visits inputs).map Visit.input <+: inputs ∧
    (right.visits inputs).map Visit.input <+: inputs := by
  refine ⟨?_, ?_, left.visitsFrom_inputs _ _, right.visitsFrom_inputs _ _⟩
  · intro join joinDelay
    have entries := left.andWithDelay_entries right join joinDelay inputs
    constructor
    · rw [entries, List.length_zipWith]
    · exact entries
  · intro actLeft actRight join joinDelay
    have waitLonger {C : Type} (combine : O → A → m C) :
        ((left.acting actLeft).andWith (right.acting actRight) combine).run inputs =
          (left.bothTurns right inputs).mapM (bothTurn actLeft actRight combine longerDelay) :=
      left.andWithDelay_run right actLeft actRight combine longerDelay inputs
    exact ⟨left.andWithDelay_run right actLeft actRight join joinDelay inputs, waitLonger join,
      waitLonger _, waitLonger _, waitLonger _⟩

theorem and_runs_recurs :
    (((recurs 1).acting fun (_ : Nat) (_ : Unit) => Session.trace "left" []).and
      ((spaced (.seconds 1)).acting fun (_ : Nat) (_ : Unit) => Session.trace "right" [])).run
        (List.replicate 10 ()) =
      ((recurs 1).bothTurns (spaced (.seconds 1)) (List.replicate 10 ())).mapM
        (bothTurn (fun _ _ => Session.trace "left" []) (fun _ _ => Session.trace "right" [])
          (fun output output' => pure (output, output')) longerDelay) ∧
    ((recurs 1).bothTurns (spaced (m := Id) (.seconds 1)) (List.replicate 10 ())).length = 2 := by
  have law := and_runs (m := Effect) (B := Nat × Nat) (recurs 1) (spaced (.seconds 1))
    (List.replicate 10 ())
  exact ⟨(law.2.1 _ _ (fun output output' => pure (output, output'))
    fun _ _ => pure .zero).2.2.1, rfl⟩

end Schedule
end Cadence
