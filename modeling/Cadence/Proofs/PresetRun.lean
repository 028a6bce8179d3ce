import Cadence.Proofs.Sampling
import Cadence.Proofs.Simulation
import Cadence.Schedule.Preset

/-!
Runs of the retry presets. Each preset is tied to one machine that only counts: it goes on with the
delay of each count below the limit, and is done with the limit.
-/
namespace Cadence.Schedule

variable {m : Type → Type} [Monad m] {I O : Type}

abbrev counted (retries : Nat) (delay : Nat → m Duration) : Schedule m I Nat where
  State := Nat
  start := 0
  step count _ := do
    if count < retries then return .proceed count (← delay count) (count + 1)
    else return .done count

def countedEntries (count : Nat) (delays : List Duration) : List (Entry Nat) :=
  (delays.zipIdx count).map (fun (delay, place) => (place, some delay)) ++
    [(count + delays.length, none)]

theorem countedEntries_cons (count : Nat) (delay : Duration) (delays : List Duration) :
    countedEntries count (delay :: delays) =
      (count, some delay) :: countedEntries (count + 1) delays := by
  have place : count + (delays.length + 1) = count + 1 + delays.length := by omega
  simp only [countedEntries, List.zipIdx_cons, List.map_cons, List.cons_append, List.length_cons,
    place]

section Run

variable [LawfulMonad m]

theorem counted_runFrom (delay : Nat → m Duration) (remaining count : Nat) {inputs : List I}
    (longer : remaining < inputs.length) :
    (counted (count + remaining) delay).runFrom count inputs =
      countedEntries count <$> (List.range' count remaining).mapM delay := by
  -- The limit stays where it is while the count moves towards it.
  induction remaining generalizing count inputs with
  | zero =>
      obtain ⟨input, inputs, rfl⟩ := List.exists_cons_of_length_pos longer
      simp [runFrom, countedEntries]
  | succ remaining ih =>
      obtain ⟨input, inputs, rfl⟩ := List.exists_cons_of_length_pos (Nat.zero_lt_of_lt longer)
      have more : count < count + (remaining + 1) := by omega
      have limit : count + (remaining + 1) = count + 1 + remaining := by omega
      have shorter : remaining < inputs.length := Nat.lt_of_succ_lt_succ longer
      simp only [runFrom, more, ↓reduceIte, bind_assoc, pure_bind, List.range'_succ,
        List.mapM_cons, map_bind, map_pure, countedEntries_cons]
      refine bind_congr fun delay => ?_
      rw [limit, ih (count + 1) shorter, bind_map_left]

theorem counted_run (retries : Nat) (delay : Nat → m Duration) {inputs : List I}
    (longer : retries < inputs.length) :
    (counted retries delay).run inputs =
      countedEntries 0 <$> (List.range retries).mapM delay := by
  have run := counted_runFrom delay retries 0 longer
  rw [Nat.zero_add] at run
  rw [Schedule.run, run, List.range_eq_range']

def CountsWith (schedule : Schedule m I Nat) (retries : Nat) (delay : Nat → Duration) : Prop :=
  ∀ inputs : List I, retries < inputs.length →
    schedule.run inputs = pure (countedEntries 0 ((List.range retries).map delay))

theorem CountsWith.of_counted {retries : Nat} {delay : Nat → Duration} {target : Schedule m I Nat}
    (simulation : Simulation (counted retries fun count => pure (delay count)) target id) :
    target.CountsWith retries delay := by
  intro inputs longer
  rw [simulation.run_eq, counted_run retries _ longer, List.mapM_pure, map_pure]

end Run

section Within

variable {ε σ : Type}

/-- In calm worlds, on more inputs than retries, the run counts through them all; no delay is longer
than the one it is bound by. -/
def CountsWithin (calm : σ → Prop) (schedule : Schedule (EStateM ε σ) I Nat) (retries : Nat)
    (bound : Nat → Duration) : Prop :=
  ∀ inputs : List I, retries < inputs.length → ∀ world, calm world →
    ∃ delays after, schedule.run inputs world = .ok (countedEntries 0 delays) after ∧ calm after ∧
      List.Forall₂ (fun count delay => delay ≤ bound count) (List.range retries) delays

theorem CountsWithin.of_counted {calm : σ → Prop} {retries : Nat} {bound : Nat → Duration}
    {delay : Nat → EStateM ε σ Duration} {target : Schedule (EStateM ε σ) I Nat}
    (simulation : Simulation (counted retries delay) target id)
    (calmly : ∀ count, Calmly calm (delay count))
    (within : ∀ count, Ensures (· ≤ bound count) (delay count)) :
    target.CountsWithin calm retries bound := by
  intro inputs longer world peace
  have run : target.run inputs = countedEntries 0 <$> (List.range retries).mapM delay := by
    rw [simulation.run_eq, counted_run retries delay longer]
  have ends : Calmly calm (target.run inputs) := by
    rw [run]
    exact (Calmly.mapM calmly (List.range retries)).map (countedEntries 0)
  have counts : Ensures (fun entries => ∃ delays, entries = countedEntries 0 delays ∧
      List.Forall₂ (fun count delay => delay ≤ bound count) (List.range retries) delays)
      (target.run inputs) := by
    rw [run]
    exact (Ensures.mapM fun count _ => within count).map fun delays bounded =>
      ⟨delays, rfl, bounded⟩
  obtain ⟨_, after, ran, calmAfter⟩ := ends world peace
  obtain ⟨delays, rfl, bounded⟩ := counts world _ after ran
  exact ⟨delays, after, ran, calmAfter, bounded⟩

end Within

section Presets

variable [LawfulMonad m] {retries : Nat}

end Presets

end Cadence.Schedule
