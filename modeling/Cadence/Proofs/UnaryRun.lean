import Cadence.Proofs.Transducer
import Cadence.Schedule.Primitive
import Cadence.Session

namespace Cadence

open Schedule (Entry)
open Transducer

variable {m : Type → Type} [Monad m] {S I O A B : Type}

def retimed (adjust : O → Duration → Duration) (entries : List (Entry O)) : List (Entry O) :=
  entries.map fun (output, delay?) => (output, delay?.map (adjust output))

section Turns

/-- A step acts, and then the transducer takes its turn. -/
def turnAfter (act : S → I → m Unit) (transducer : Transducer m I O A) (visit : Visit S I O) :
    m (Entry A) := do
  act visit.state visit.input
  transducer.turn visit.input visit.entry

variable (keep : I → O → Bool)

def refused (visit : Visit S I O) : Bool :=
  visit.delay?.isSome && !keep visit.input visit.output

def heldVisits (visits : List (Visit S I O)) : List (Visit S I O) :=
  visits.take (visits.findIdx (refused keep) + 1)

theorem heldVisits_of_refused {visit : Visit S I O} (stopped : refused keep visit = true)
    (visits : List (Visit S I O)) : heldVisits keep (visit :: visits) = [visit] := by
  simp [heldVisits, List.findIdx_cons, stopped]

theorem heldVisits_of_kept {visit : Visit S I O} (kept : refused keep visit = false)
    (visits : List (Visit S I O)) :
    heldVisits keep (visit :: visits) = visit :: heldVisits keep visits := by
  simp [heldVisits, List.findIdx_cons, kept]

theorem heldVisits_true (visits : List (Visit S I O)) :
    heldVisits (fun _ _ => true) visits = visits := by
  induction visits with
  | nil => rfl
  | cons visit visits ih =>
      have kept : refused (fun _ _ => true) visit = false := by simp [refused]
      rw [heldVisits_of_kept _ kept, ih]

/-- Whatever the transducer does, it ends the run where the condition does not hold, and only
there. -/
def Transducer.EndsUnless (transducer : Transducer m I O A) : Prop :=
  ∀ input output delay, ∃ made : m (A × Duration),
    transducer.ongoing input output delay = do
      let (shown, wait) ← made
      return (shown, if keep input output then some wait else none)

variable [LawfulMonad m]

theorem mapping_endsUnless (f : O → m A) :
    (mapping f : Transducer m I O A).EndsUnless fun _ _ => true := by
  intro input output delay
  exact ⟨(fun shown => (shown, delay)) <$> f output, by simp [mapping]⟩

theorem delaying_endsUnless (adjust : O → Duration → m Duration) :
    (delaying adjust : Transducer m I O O).EndsUnless fun _ _ => true := by
  intro input output delay
  exact ⟨(fun wait => (output, wait)) <$> adjust output delay, by simp [delaying]⟩

theorem noting_endsUnless (action : I → O → m Unit) :
    (noting action).EndsUnless fun _ _ => true := by
  intro input output delay
  exact ⟨(fun _ => (output, delay)) <$> action input output, by simp [noting]⟩

theorem holding_endsUnless (tell : I → O → m Unit) :
    (holding fun input output => do tell input output; return keep input output).EndsUnless
      keep := by
  intro input output delay
  exact ⟨(fun _ => (output, delay)) <$> tell input output, by simp [holding]⟩

end Turns

def RefusedAt (keep : I → O → Bool) (inputs : List I) (entries : List (Entry O)) (place : Nat)
    (output : O) : Prop :=
  ∃ input delay, inputs[place]? = some input ∧ entries[place]? = some (output, some delay) ∧
    keep input output = false

/-- The entries of a run that is held by a condition: all of them where it is never refused, and
otherwise those before the first place where it is, and there the last one. -/
structure HeldBy (keep : I → O → Bool) (inputs : List I) (entries held : List (Entry O)) :
    Prop where
  whole : (∀ place output, ¬RefusedAt keep inputs entries place output) → held = entries
  cut : ∀ {place output}, RefusedAt keep inputs entries place output →
    (∀ earlier < place, ∀ shown, ¬RefusedAt keep inputs entries earlier shown) →
    held = entries.take place ++ [(output, none)]

namespace HeldBy

variable {keep : I → O → Bool} {input : I} {inputs : List I} {output : O} {delay : Duration}
  {entries held : List (Entry O)}

theorem refusedAt_zero (refuses : keep input output = false) :
    RefusedAt keep (input :: inputs) ((output, some delay) :: entries) 0 output :=
  ⟨input, delay, rfl, rfl, refuses⟩

theorem refusedAt_succ {entry : Entry O} {place : Nat} {shown : O} :
    RefusedAt keep (input :: inputs) (entry :: entries) (place + 1) shown ↔
      RefusedAt keep inputs entries place shown := by
  simp [RefusedAt]

theorem of_ended (ended : ∀ place output, ¬RefusedAt keep inputs entries place output) :
    HeldBy keep inputs entries entries := by
  constructor
  · intro _
    rfl
  · intro place output refuses
    exact absurd refuses (ended place output)

theorem nil (inputs : List I) : HeldBy keep inputs [] [] := by
  apply of_ended
  rintro place output ⟨_, _, _, here, _⟩
  simp at here

theorem done (inputs : List I) (output : O) :
    HeldBy keep inputs [(output, none)] [(output, none)] := by
  apply of_ended
  rintro place shown ⟨_, _, _, here, _⟩
  cases place <;> simp at here

theorem stop (refuses : keep input output = false) :
    HeldBy keep (input :: inputs) ((output, some delay) :: entries) [(output, none)] := by
  constructor
  · intro never
    exact absurd (refusedAt_zero refuses) (never 0 output)
  · intro place shown here first
    cases place with
    | zero =>
        obtain ⟨_, _, _, same, _⟩ := here
        obtain ⟨rfl, rfl⟩ : output = shown ∧ delay = _ := by simpa using same
        rfl
    | succ place => exact absurd (refusedAt_zero refuses) (first 0 (Nat.succ_pos place) output)

theorem proceed (later : HeldBy keep inputs entries held) (keeps : keep input output = true) :
    HeldBy keep (input :: inputs) ((output, some delay) :: entries)
      ((output, some delay) :: held) := by
  constructor
  · intro never
    rw [later.whole fun place shown => mt refusedAt_succ.mpr (never (place + 1) shown)]
  · intro place shown here first
    cases place with
    | zero =>
        obtain ⟨_, _, same, shows, refuses⟩ := here
        obtain rfl : input = _ := by simpa using same
        obtain ⟨rfl, rfl⟩ : output = shown ∧ delay = _ := by simpa using shows
        rw [keeps] at refuses
        exact nomatch refuses
    | succ place =>
        have held := later.cut (refusedAt_succ.mp here) fun earlier before shown =>
          mt refusedAt_succ.mpr (first (earlier + 1) (Nat.succ_lt_succ before) shown)
        rw [held, List.take_succ_cons, List.cons_append]

end HeldBy

namespace Schedule

section Pure

variable [LawfulMonad m] (schedule : Schedule m I O)

theorem runFromThrough_view {transducer : Transducer m I O A} {view : Entry O → Entry A}
    (views : ∀ input entry, transducer.turn input entry = pure (view entry))
    (shape : ∀ entry, (view entry).2.isSome = entry.2.isSome) (inputs : List I)
    (state : schedule.State) :
    schedule.runFromThrough transducer state inputs =
      List.map view <$> schedule.runFrom state inputs := by
  induction inputs generalizing state with
  | nil => simp [runFromThrough, runFrom]
  | cons input inputs ih =>
      simp only [runFromThrough, runFrom, views, pure_bind, map_bind]
      refine bind_congr fun decision => ?_
      cases decision with
      | done output =>
          have ends : (view (output, none)).2 = none := by simpa using shape (output, none)
          simp
      | proceed output delay next =>
          obtain ⟨wait, goes⟩ := Option.isSome_iff_exists.mp (shape (output, some delay))
          simp [goes, ih]

theorem map_run_pure (f : O → A) (inputs : List I) :
    (schedule.map fun output => pure (f output)).run inputs =
      viewed f <$> schedule.run inputs := by
  rw [map_eq_transduced, transduced_run]
  refine schedule.runFromThrough_view ?_ ?_ inputs schedule.start
  · rintro input ⟨output, _ | delay⟩ <;> simp [turn, mapping]
  · intro entry
    rfl

theorem delayed_run_pure (adjust : O → Duration → Duration) (inputs : List I) :
    (schedule.delayed fun output delay => pure (adjust output delay)).run inputs =
      retimed adjust <$> schedule.run inputs := by
  rw [delayed_eq_transduced, transduced_run]
  refine schedule.runFromThrough_view ?_ ?_ inputs schedule.start
  · rintro input ⟨output, _ | delay⟩ <;> simp [turn, delaying]
  · intro entry
    exact Option.isSome_map

theorem observe_run_pure (inputs : List I) :
    (schedule.observe fun _ _ => pure ()).run inputs = schedule.run inputs := by
  have views : schedule.runThrough (noting fun _ _ => pure ()) inputs =
      List.map id <$> schedule.run inputs := by
    refine schedule.runFromThrough_view ?_ (fun _ => rfl) inputs schedule.start
    rintro input ⟨output, _ | delay⟩ <;> simp [turn, noting]
  rw [observe_eq_transduced, transduced_run, views, List.map_id_fun, id_map]

end Pure

section Acting

variable [LawfulMonad m] (plan : Schedule Id I O) (act : plan.State → I → m Unit)

theorem runFromThrough_acting {transducer : Transducer m I O A} {keep : I → O → Bool}
    (ends : transducer.EndsUnless keep) (inputs : List I) (state : plan.State) :
    (plan.acting act).runFromThrough transducer state inputs =
      (heldVisits keep (plan.visitsFrom (some state) inputs)).mapM (turnAfter act transducer) := by
  induction inputs generalizing state with
  | nil => simp [runFromThrough, heldVisits]
  | cons input inputs ih =>
      rw [visitsFrom_cons]
      simp only [runFromThrough, acting, bind_assoc, pure_bind]
      generalize (plan.step state input : Decision plan.State O) = decision
      cases decision with
      | done output =>
          simp [heldVisits, turnAfter, Visit.entry]
      | proceed output delay next =>
          obtain ⟨made, turns⟩ := ends input output delay
          cases keeps : keep input output with
          | true =>
              have kept : refused keep
                  (⟨state, input, .proceed output delay next⟩ : Visit plan.State I O) = false := by
                simp [refused, keeps]
              simp [heldVisits_of_kept keep kept, turnAfter, Visit.entry, turn, turns, keeps, ih]
          | false =>
              have stopped : refused keep
                  (⟨state, input, .proceed output delay next⟩ : Visit plan.State I O) = true := by
                simp [refused, keeps]
              simp [heldVisits_of_refused keep stopped, turnAfter, Visit.entry, turn, turns, keeps]

theorem runThrough_acting {transducer : Transducer m I O A}
    (ends : transducer.EndsUnless fun _ _ => true) (inputs : List I) :
    (plan.acting act).runThrough transducer inputs =
      (plan.visits inputs).mapM (turnAfter act transducer) := by
  have turns := plan.runFromThrough_acting act ends inputs plan.start
  rw [heldVisits_true] at turns
  exact turns

end Acting

theorem runFromThrough_heldBy (plan : Schedule Id I O) (keep : I → O → Bool) (inputs : List I)
    (state : plan.State) :
    HeldBy keep inputs (plan.runFrom state inputs).run
      (plan.runFromThrough (holding fun input output => pure (keep input output)) state
        inputs).run := by
  induction inputs generalizing state with
  | nil => exact .nil []
  | cons input inputs ih =>
      cases decided : (plan.step state input).run with
      | done output =>
          have step : plan.step state input = pure (.done output) := decided
          simp only [runFrom, runFromThrough, step, pure_bind]
          exact .done _ output
      | proceed output delay next =>
          have step : plan.step state input = pure (.proceed output delay next) := decided
          cases keeps : keep input output with
          | true =>
              simp only [runFrom, runFromThrough, step, pure_bind, turn, holding,
                Decision.output_proceed, Decision.delay?_proceed, Decision.next?_proceed, keeps,
                if_true]
              exact (ih next).proceed keeps
          | false =>
              simp only [runFrom, runFromThrough, step, pure_bind, turn, holding,
                Decision.output_proceed, Decision.delay?_proceed, keeps]
              exact .stop keeps

theorem doWhile_heldBy (plan : Schedule Id I O) (keep : I → O → Bool) (inputs : List I) :
    HeldBy keep inputs (plan.run inputs).run ((doWhile (m := Id) plan keep).run inputs).run := by
  rw [doWhile_eq_transduced, transduced_run]
  exact plan.runFromThrough_heldBy keep inputs plan.start

section Laws

variable (schedule : Schedule m I O) (plan : Schedule Id I O) (act : plan.State → I → m Unit)
  (inputs : List I)

/-- The runs of mapped schedules. Where `f` does nothing else, only the outputs change. Whatever it
does besides is done once after each step, the last one too. -/
structure MapRuns : Prop where
  views : ∀ {A : Type} (f : O → A),
    (schedule.map fun output => pure (f output)).run inputs = viewed f <$> schedule.run inputs
  turns : ∀ {A : Type} (f : O → m A),
    ((plan.acting act).map f).run inputs =
      (plan.visits inputs).mapM (turnAfter act (mapping f))
  through : ∀ {A : Type} (f : O → m A),
    (schedule.map f).run inputs = schedule.runThrough (mapping f) inputs
  fuses : ∀ {A B : Type} (f : O → m A) (g : A → m B),
    ((schedule.map f).map g).run inputs = (schedule.map fun output => f output >>= g).run inputs

structure DelayRuns : Prop where
  views : ∀ adjust : O → Duration → Duration,
    (schedule.delayed fun output delay => pure (adjust output delay)).run inputs =
      retimed adjust <$> schedule.run inputs
  turns : ∀ adjust : O → Duration → m Duration,
    ((plan.acting act).delayed adjust).run inputs =
      (plan.visits inputs).mapM (turnAfter act (delaying adjust))
  through : ∀ adjust : O → Duration → m Duration,
    (schedule.delayed adjust).run inputs = schedule.runThrough (delaying adjust) inputs
  fuses : ∀ adjust further : O → Duration → m Duration,
    ((schedule.delayed adjust).delayed further).run inputs =
      (schedule.delayed fun output delay => adjust output delay >>= further output).run inputs

/-- The runs of schedules that are held by a condition. Asking it is done once after each step that
goes on, up to the first that is refused. -/
structure HoldRuns : Prop where
  held : ∀ keep : I → O → Bool,
    HeldBy keep inputs (plan.run inputs).run ((doWhile (m := Id) plan keep).run inputs).run
  turns : ∀ (tell : I → O → m Unit) (keep : I → O → Bool),
    ((plan.acting act).doWhile fun input output => do
      tell input output
      return keep input output).run inputs =
        (heldVisits keep (plan.visits inputs)).mapM (turnAfter act (holding fun input output => do
          tell input output
          return keep input output))
  through : ∀ keep : I → O → m Bool,
    (schedule.doWhile keep).run inputs = schedule.runThrough (holding keep) inputs
  fuses : ∀ keep further : I → O → m Bool,
    ((schedule.doWhile keep).doWhile further).run inputs =
      (schedule.doWhile fun input output => do
        if ← keep input output then further input output else return false).run inputs
  stopped : ∀ stop : I → O → Bool,
    HeldBy (fun input output => !stop input output) inputs (plan.run inputs).run
      ((doUntil (m := Id) plan stop).run inputs).run
  negates : ∀ stop : I → O → m Bool,
    (schedule.doUntil stop).run inputs =
      (schedule.doWhile fun input output => do return !(← stop input output)).run inputs

structure ObserveRuns : Prop where
  same : (schedule.observe fun _ _ => pure ()).run inputs = schedule.run inputs
  turns : ∀ action : I → O → m Unit,
    ((plan.acting act).observe action).run inputs =
      (plan.visits inputs).mapM (turnAfter act (noting action))
  through : ∀ action : I → O → m Unit,
    (schedule.observe action).run inputs = schedule.runThrough (noting action) inputs

variable [LawfulMonad m]

theorem map_runs : MapRuns schedule plan act inputs where
  views f := schedule.map_run_pure f inputs
  turns f := by
    rw [map_eq_transduced, transduced_run]
    exact plan.runThrough_acting act (mapping_endsUnless f) inputs
  through f := by rw [map_eq_transduced, transduced_run]
  fuses f g := by
    rw [map_eq_transduced, map_eq_transduced, transduced_transduced, compose_mapping,
      ← map_eq_transduced]

theorem delayed_runs : DelayRuns schedule plan act inputs where
  views adjust := schedule.delayed_run_pure adjust inputs
  turns adjust := by
    rw [delayed_eq_transduced, transduced_run]
    exact plan.runThrough_acting act (delaying_endsUnless adjust) inputs
  through adjust := by rw [delayed_eq_transduced, transduced_run]
  fuses adjust further := by
    rw [delayed_eq_transduced, delayed_eq_transduced, transduced_transduced, compose_delaying,
      ← delayed_eq_transduced]

theorem doWhile_runs : HoldRuns schedule plan act inputs where
  held keep := plan.doWhile_heldBy keep inputs
  turns tell keep := by
    rw [doWhile_eq_transduced, transduced_run]
    exact plan.runFromThrough_acting act (holding_endsUnless keep tell) inputs plan.start
  through keep := by rw [doWhile_eq_transduced, transduced_run]
  fuses keep further := by
    rw [doWhile_eq_transduced, doWhile_eq_transduced, transduced_transduced, compose_holding,
      ← doWhile_eq_transduced]
  stopped stop := plan.doWhile_heldBy (fun input output => !stop input output) inputs
  negates _ := rfl

theorem observe_runs : ObserveRuns schedule plan act inputs where
  same := schedule.observe_run_pure inputs
  turns action := by
    rw [observe_eq_transduced, transduced_run]
    exact plan.runThrough_acting act (noting_endsUnless action) inputs
  through action := by rw [observe_eq_transduced, transduced_run]

/-- The combinators of one schedule are transducers of its steps, and two of a kind in turn are one.
This holds of runs whatever steps and closures do. Where one of them breaks off, it does so after the
same effects, and what was shown before is the run on fewer inputs. -/
theorem unary_combinators_transduce :
    MapRuns schedule plan act inputs ∧ DelayRuns schedule plan act inputs ∧
      HoldRuns schedule plan act inputs ∧ ObserveRuns schedule plan act inputs :=
  ⟨map_runs schedule plan act inputs, delayed_runs schedule plan act inputs,
    doWhile_runs schedule plan act inputs, observe_runs schedule plan act inputs⟩

end Laws

theorem unary_combinators_transduce_recurs :
    let act (_ : Nat) (_ : Unit) : Effect Unit := Session.trace "step" []
    let tell (_ : Unit) (_ : Nat) : Effect Unit := Session.trace "condition" []
    let keep (_ : Unit) (count : Nat) : Bool := count != 1
    (((recurs 3).acting act).doWhile fun input count => do
      tell input count
      return keep input count).run (List.replicate 5 ()) =
        (heldVisits keep ((recurs 3).visits (List.replicate 5 ()))).mapM
          (turnAfter act (holding fun input count => do
            tell input count
            return keep input count)) ∧
    ((doWhile (m := Id) (recurs 3) keep).run (List.replicate 5 ())).run =
      [(0, some .zero), (1, none)] := by
  intro act tell keep
  have runs := unary_combinators_transduce ((recurs 3).acting act) (recurs 3) act
    (List.replicate 5 ())
  have refuses : RefusedAt keep (List.replicate 5 ())
      ((recurs (m := Id) 3).run (List.replicate 5 ())).run 1 1 := ⟨(), .zero, rfl, rfl, rfl⟩
  refine ⟨runs.2.2.1.turns tell keep, (runs.2.2.1.held keep).cut refuses ?_⟩
  rintro earlier before shown ⟨_, _, _, here, kept⟩
  obtain rfl : earlier = 0 := by omega
  cases here
  cases kept

end Schedule
end Cadence
