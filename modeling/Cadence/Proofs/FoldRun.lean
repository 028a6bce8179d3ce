import Cadence.Proofs.RunEnd
import Cadence.Schedule.Transform
import Cadence.Session

namespace Cadence

open Schedule (Entry)

variable {m : Type → Type} [Monad m] {S I O A B : Type}

def continued (entries : List (Entry O)) : List O :=
  entries.filterMap fun (output, delay?) => delay?.map fun _ => output

def foldedEntries (seed : A) (f : A → O → A) (entries : List (Entry O)) : List (Entry A) :=
  entries.mapIdx fun place entry =>
    ((continued (entries.take (place + 1))).foldl f seed, entry.2)

def collectedEntries (entries : List (Entry O)) : List (Entry (List O)) :=
  entries.mapIdx fun place entry => (continued (entries.take (place + 1)), entry.2)

theorem continued_cons_proceed (output : O) (delay : Duration) (entries : List (Entry O)) :
    continued ((output, some delay) :: entries) = output :: continued entries := rfl

theorem foldedEntries_proceed (seed : A) (f : A → O → A) (output : O) (delay : Duration)
    (entries : List (Entry O)) :
    foldedEntries seed f ((output, some delay) :: entries) =
      (f seed output, some delay) :: foldedEntries (f seed output) f entries := by
  simp [foldedEntries, continued_cons_proceed]
  rfl

theorem foldedEntries_done (seed : A) (f : A → O → A) (output : O) :
    foldedEntries seed f [(output, none)] = [(seed, none)] := rfl

theorem foldl_snoc (earlier outputs : List O) :
    outputs.foldl (fun collected output => collected ++ [output]) earlier = earlier ++ outputs := by
  induction outputs generalizing earlier with
  | nil => simp
  | cons output outputs ih => simp [ih]

theorem foldedEntries_snoc :
    foldedEntries [] (fun collected (output : O) => collected ++ [output]) = collectedEntries := by
  funext entries
  simp only [foldedEntries, collectedEntries, foldl_snoc, List.nil_append]

/-- The entries of a fold, place by place: up to each place where the run goes on, all outputs are
folded, and where it is done all those before. -/
structure FoldsTo (seed : A) (f : A → O → A) (entries : List (Entry O))
    (folded : List (Entry A)) : Prop where
  length : folded.length = entries.length
  proceeds : ∀ {place output delay}, entries[place]? = some (output, some delay) →
    folded[place]? = some (((entries.take (place + 1)).map Prod.fst).foldl f seed, some delay)
  ends : ∀ {place output}, entries[place]? = some (output, none) →
    entries.length = place + 1 ∧
      folded[place]? = some (((entries.take place).map Prod.fst).foldl f seed, none)

namespace FoldsTo

theorem nil (seed : A) (f : A → O → A) : FoldsTo seed f [] [] := by
  constructor <;> simp

theorem done (seed : A) (f : A → O → A) (output : O) :
    FoldsTo seed f [(output, none)] [(seed, none)] := by
  constructor
  · rfl
  · intro place shown delay here
    cases place with
    | zero => simp at here
    | succ place => simp at here
  · intro place shown here
    cases place with
    | zero => simp
    | succ place => simp at here

theorem proceed {seed : A} {f : A → O → A} {output : O} {entries : List (Entry O)}
    {folded : List (Entry A)} (later : FoldsTo (f seed output) f entries folded)
    (delay : Duration) :
    FoldsTo seed f ((output, some delay) :: entries) ((f seed output, some delay) :: folded) := by
  constructor
  · simp [later.length]
  · intro place shown wait here
    cases place with
    | zero =>
        obtain ⟨rfl, rfl⟩ : output = shown ∧ delay = wait := by simpa using here
        rfl
    | succ place => simpa using later.proceeds (by simpa using here)
  · intro place shown here
    cases place with
    | zero => simp at here
    | succ place => simpa using later.ends (by simpa using here)

end FoldsTo

def foldEntry (f : A → O → m A) : Entry O → StateT A m (Entry A)
  | (_, none) => return (← get, none)
  | (output, some delay) => do
      set (← f (← get) output)
      return (← get, some delay)

/-- A step of the run acts, and then its output is folded in, if the run goes on after it. -/
def foldTurn (act : S → I → m Unit) (f : A → O → m A) (visit : Visit S I O) :
    StateT A m (Entry A) := do
  act visit.state visit.input
  foldEntry f visit.entry

namespace Schedule

def runFromWith (schedule : Schedule m I O) (turn : Entry O → StateT A m B) :
    schedule.State → List I → StateT A m (List B)
  | _, [] => pure []
  | state, input :: inputs => do
      match ← schedule.step state input with
      | .done output => return [← turn (output, none)]
      | .proceed output delay next =>
          return (← turn (output, some delay)) :: (← schedule.runFromWith turn next inputs)

def runWith (schedule : Schedule m I O) (turn : Entry O → StateT A m B) (inputs : List I) :
    StateT A m (List B) :=
  schedule.runFromWith turn schedule.start inputs

theorem fold_step (schedule : Schedule m I O) (seed : A) (f : A → O → m A) (folded : A)
    (state : schedule.State) (input : I) :
    (schedule.fold seed f).step (folded, state) input = (do
      match ← schedule.step state input with
      | .done _ => return .done folded
      | .proceed output delay next =>
          let refolded ← f folded output
          return .proceed refolded delay (refolded, next)) := rfl

variable [LawfulMonad m]

theorem runFromWith_acting (plan : Schedule Id I O) (act : plan.State → I → m Unit)
    (turn : Entry O → StateT A m B) (inputs : List I) (state : plan.State) :
    (plan.acting act).runFromWith turn state inputs =
      (plan.visitsFrom (some state) inputs).mapM (fun visit => do
        act visit.state visit.input
        turn visit.entry) := by
  induction inputs generalizing state with
  | nil => simp [runFromWith]
  | cons input inputs ih =>
      simp only [runFromWith]
      rw [visitsFrom_cons, List.mapM_cons]
      simp only [acting]
      generalize (plan.step state input : Decision plan.State O) = decision
      cases decision with
      | done output => simp [Visit.entry]
      | proceed output delay next => simp [Visit.entry, ih]

theorem fold_runFrom (schedule : Schedule m I O) (seed : A) (f : A → O → m A) (inputs : List I)
    (folded : A) (state : schedule.State) :
    (schedule.fold seed f).runFrom (folded, state) inputs =
      (schedule.runFromWith (foldEntry f) state inputs).run' folded := by
  induction inputs generalizing folded state with
  | nil => simp [runFrom, runFromWith]
  | cons input inputs ih =>
      simp only [runFrom, runFromWith, StateT.run'_eq, StateT.run_bind]
      rw [fold_step]
      simp only [bind_pure_comp, bind_assoc, StateT.run_monadLift, monadLift_self, bind_map_left,
        map_bind]
      refine bind_congr fun decision => ?_
      cases decision with
      | done output => simp [foldEntry]
      | proceed output delay next => simp [foldEntry, ih]

theorem fold_runFrom_pure (schedule : Schedule m I O) (seed : A) (f : A → O → A) (inputs : List I)
    (folded : A) (state : schedule.State) :
    (schedule.fold seed fun folded output => pure (f folded output)).runFrom (folded, state)
      inputs = foldedEntries folded f <$> schedule.runFrom state inputs := by
  induction inputs generalizing folded state with
  | nil => simp [runFrom, foldedEntries]
  | cons input inputs ih =>
      simp only [runFrom]
      rw [fold_step]
      simp only [bind_assoc, map_bind]
      refine bind_congr fun decision => ?_
      cases decision with
      | done output => simp [foldedEntries_done]
      | proceed output delay next => simp [ih, foldedEntries_proceed]

theorem collect_run (schedule : Schedule m I O) (inputs : List I) :
    schedule.collect.run inputs = collectedEntries <$> schedule.run inputs := by
  have folds := schedule.fold_runFrom_pure [] (fun collected output => collected ++ [output])
    inputs [] schedule.start
  rw [foldedEntries_snoc] at folds
  exact folds

section Plan

variable (plan : Schedule Id I O) (inputs : List I)

theorem foldsTo_runFrom (seed : A) (f : A → O → A) (state : plan.State) :
    FoldsTo seed f (plan.runFrom state inputs).run
      (foldedEntries seed f (plan.runFrom state inputs).run) := by
  induction inputs generalizing seed state with
  | nil => exact .nil seed f
  | cons input inputs ih =>
      cases decided : (plan.step state input : Decision plan.State O) with
      | done output =>
          simp only [runFrom, decided]
          exact .done seed f output
      | proceed output delay next =>
          simp only [runFrom, decided]
          exact foldedEntries_proceed seed f output delay _ ▸ (ih (f seed output) next).proceed delay

theorem fold_folds (seed : A) (f : A → O → A) :
    FoldsTo seed f (plan.run inputs).run ((fold (m := Id) plan seed f).run inputs).run := by
  have run : ((fold (m := Id) plan seed f).run inputs).run =
      foldedEntries seed f (plan.run inputs).run :=
    fold_runFrom_pure (m := Id) plan seed f inputs seed plan.start
  rw [run]
  exact plan.foldsTo_runFrom inputs seed f plan.start

theorem collect_ends {earlier : List (Entry O)} {last : O}
    (ended : (plan.run inputs).run = earlier ++ [(last, none)]) :
    ((collect (m := Id) plan).run inputs).run.getLast? = some (earlier.map Prod.fst, none) := by
  have folds := plan.fold_folds inputs [] fun collected output => collected ++ [output]
  have here : (plan.run inputs).run[earlier.length]? = some (last, none) := by simp [ended]
  obtain ⟨length, shown⟩ := folds.ends here
  rw [ended, List.take_left, foldl_snoc, List.nil_append] at shown
  rw [List.getLast?_eq_getElem?, ← shown]
  congr 1
  have all := folds.length
  change ((collect (m := Id) plan).run inputs).run.length = _ at all
  omega

theorem fold_acting_run (act : plan.State → I → m Unit) (seed : A)
    (f : A → O → m A) :
    ((plan.acting act).fold seed f).run inputs =
      ((plan.visits inputs).mapM (foldTurn act f)).run' seed := by
  have turns := runFromWith_acting plan act (foldEntry f) inputs plan.start
  exact ((plan.acting act).fold_runFrom seed f inputs seed plan.start).trans
    (congrArg (StateT.run' · seed) turns)

end Plan

/-- The law of `fold`. Where the run goes on, an entry shows the fold of all outputs so far, with the
delay of the schedule; where the run is done it shows the fold of those before, so that `collect` is
done with the list of them. This holds whatever steps do. Whatever folding does besides, it is done
right after the step whose output is folded in: once for each step after which the run goes on, in
order, and not after the last. -/
theorem fold_runs (plan : Schedule Id I O) (inputs : List I) (seed : A) :
    (∀ f : A → O → A,
      FoldsTo seed f (plan.run inputs).run ((fold (m := Id) plan seed f).run inputs).run) ∧
    (∀ earlier last, (plan.run inputs).run = earlier ++ [(last, none)] →
      ((collect (m := Id) plan).run inputs).run.getLast? =
        some (earlier.map Prod.fst, none)) ∧
    (∀ (act : plan.State → I → m Unit) (f : A → O → m A),
      ((plan.acting act).fold seed f).run inputs =
        ((plan.visits inputs).mapM (foldTurn act f)).run' seed) ∧
    (∀ schedule : Schedule m I O,
      (∀ f : A → O → A,
        (schedule.fold seed fun folded output => pure (f folded output)).run inputs =
          foldedEntries seed f <$> schedule.run inputs) ∧
      schedule.collect.run inputs = collectedEntries <$> schedule.run inputs ∧
      ∀ f : A → O → m A,
        (schedule.fold seed f).run inputs = (schedule.runWith (foldEntry f) inputs).run' seed) := by
  refine ⟨plan.fold_folds inputs seed, ?_, ?_, ?_⟩
  · intro earlier last ended
    exact plan.collect_ends inputs ended
  · intro act f
    exact plan.fold_acting_run inputs act seed f
  · intro schedule
    refine ⟨?_, schedule.collect_run inputs, ?_⟩
    · intro f
      exact schedule.fold_runFrom_pure seed f inputs seed schedule.start
    · intro f
      exact schedule.fold_runFrom seed f inputs seed schedule.start

theorem fold_runs_recurs :
    (((recurs 2).acting fun (_ : Nat) (_ : Unit) => Session.trace "step" []).fold 10
      fun total count => do Session.trace "fold" []; return total + count).run
        (List.replicate 5 ()) =
      (((recurs 2).visits (List.replicate 5 ())).mapM
        (foldTurn (fun _ _ => Session.trace "step" []) fun total count => do
          Session.trace "fold" []; return total + count)).run' 10 ∧
    ((collect (m := Id) (recurs 2)).run (List.replicate 5 ())).run.getLast? =
      some ([0, 1], none) := by
  have accounts := fold_runs (m := Effect) (recurs 2) (List.replicate 5 ()) 10
  exact ⟨accounts.2.2.1 _ _, accounts.2.1 [(0, some .zero), (1, some .zero)] 2 rfl⟩

end Schedule
end Cadence
