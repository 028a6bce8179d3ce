import Cadence.Proofs.Visit

namespace Cadence

open Schedule (Entry)

variable {m : Type → Type} [Monad m] {I O C : Type}

def endPlace? (entries : List (Entry O)) : Option Nat := entries.findIdx? (·.2.isNone)

theorem endPlace?_cons_done (output : O) (entries : List (Entry O)) :
    endPlace? ((output, none) :: entries) = some 0 := by
  simp [endPlace?, List.findIdx?_cons]

theorem endPlace?_cons_proceed (output : O) (delay : Duration) (entries : List (Entry O)) :
    endPlace? ((output, some delay) :: entries) = (endPlace? entries).map (· + 1) := by
  simp [endPlace?, List.findIdx?_cons]

/-- The run is done at its last entry, if at all. -/
def EndsDone (entries : List (Entry O)) : Prop :=
  ∀ place, endPlace? entries = some place → entries.length = place + 1

theorem endsDone_nil : EndsDone ([] : List (Entry O)) := nofun

theorem endsDone_done (output : O) : EndsDone [(output, none)] := by
  intro place ended
  rw [endPlace?_cons_done, Option.some.injEq] at ended
  rw [← ended, List.length_singleton]

theorem EndsDone.proceed {entries : List (Entry O)} (ends : EndsDone entries) (output : O)
    (delay : Duration) : EndsDone ((output, some delay) :: entries) := by
  intro place ended
  rw [endPlace?_cons_proceed] at ended
  obtain ⟨rest, later, rfl⟩ := Option.map_eq_some_iff.mp ended
  rw [List.length_cons, ends rest later]

namespace Schedule

/-- What goes on after a run may rely on its being done at its end. -/
theorem runFrom_bind_congr [LawfulMonad m] (schedule : Schedule m I O)
    {next next' : List (Entry O) → m C}
    (same : ∀ entries, EndsDone entries → next entries = next' entries) (inputs : List I)
    (state : schedule.State) :
    schedule.runFrom state inputs >>= next = schedule.runFrom state inputs >>= next' := by
  induction inputs generalizing state next next' with
  | nil => simp only [runFrom, pure_bind, same _ endsDone_nil]
  | cons input inputs ih =>
      simp only [runFrom, bind_assoc]
      refine bind_congr fun decision => ?_
      cases decision with
      | done output => simp only [pure_bind, same _ (endsDone_done output)]
      | proceed output delay rest =>
          simp only [bind_assoc, pure_bind]
          exact ih (fun entries ends => same _ (ends.proceed output delay)) rest

variable (plan : Schedule Id I O)

theorem endsDone_runFrom (inputs : List I) (state : plan.State) :
    EndsDone (plan.runFrom state inputs).run := by
  induction inputs generalizing state with
  | nil => exact endsDone_nil
  | cons input inputs ih =>
      cases decided : (plan.step state input : Decision plan.State O) with
      | done output =>
          simp only [runFrom, decided]
          exact endsDone_done output
      | proceed output delay next =>
          simp only [runFrom, decided]
          exact (ih next).proceed output delay

theorem endsDone_run (inputs : List I) : EndsDone (plan.run inputs).run :=
  plan.endsDone_runFrom inputs plan.start

end Schedule
end Cadence
