import Cadence.Proofs.Simulation
import Cadence.Proofs.Visit
import Cadence.Schedule.Primitive
import Cadence.Schedule.Transform
import Cadence.Session

namespace Cadence

open Schedule (Entry)

variable {m : Type → Type} [Monad m] {κ ι I O Track : Type}

/-- What can be made of a decision. Only where it goes on is there a continuation to keep. -/
inductive Ruling (Track : Type) : Decision κ O → Type where
  | finish {decided : Decision κ O} (output : O) : Ruling Track decided
  | keep {shown : O} {wait : Duration} {next : κ} (output : O) (delay : Duration) :
      Ruling Track (.proceed shown wait next)
  | leave {decided : Decision κ O} (output : O) (delay : Duration) (track : Track) :
      Ruling Track decided

namespace Ruling

variable {decided : Decision κ O}

def decision : {decided : Decision κ O} → Ruling Track decided → Decision (κ ⊕ Track) O
  | _, finish output => .done output
  | .proceed _ _ next, keep output delay => .proceed output delay (.inl next)
  | _, leave output delay track => .proceed output delay (.inr track)

def entry : Ruling Track decided → Entry O
  | finish output => (output, none)
  | keep output delay | leave output delay _ => (output, some delay)

def keeps : Ruling Track decided → Bool
  | keep .. => true
  | _ => false

def track? : Ruling Track decided → Option Track
  | leave _ _ track => some track
  | _ => none

section Cases

variable {shown : O} {wait : Duration} {next : κ} (output : O) (delay : Duration) (track : Track)

@[simp] theorem decision_finish :
    (finish output : Ruling Track decided).decision = .done output := rfl

@[simp] theorem decision_keep :
    (keep output delay : Ruling Track (.proceed shown wait next)).decision =
      .proceed output delay (.inl next) := rfl

@[simp] theorem decision_leave :
    (leave output delay track : Ruling Track decided).decision =
      .proceed output delay (.inr track) := rfl

@[simp] theorem entry_finish :
    (finish output : Ruling Track decided).entry = (output, none) := rfl

@[simp] theorem entry_keep :
    (keep output delay : Ruling Track (.proceed shown wait next)).entry =
      (output, some delay) := rfl

@[simp] theorem entry_leave :
    (leave output delay track : Ruling Track decided).entry = (output, some delay) := rfl

@[simp] theorem keeps_finish : (finish output : Ruling Track decided).keeps = false := rfl

@[simp] theorem keeps_keep :
    (keep output delay : Ruling Track (.proceed shown wait next)).keeps = true := rfl

@[simp] theorem keeps_leave :
    (leave output delay track : Ruling Track decided).keeps = false := rfl

@[simp] theorem track?_finish : (finish output : Ruling Track decided).track? = none := rfl

@[simp] theorem track?_leave :
    (leave output delay track : Ruling Track decided).track? = some track := rfl

end Cases

theorem track?_of_keeps {ruling : Ruling Track decided} (kept : ruling.keeps = true) :
    ruling.track? = none := by
  cases ruling with
  | finish output => rfl
  | keep output delay => rfl
  | leave output delay track => simp at kept

end Ruling

section Rule

variable (rule : (decided : Decision κ O) → Ruling Track decided)

/-- The steps whose decisions are ruled on: all up to the first whose continuation is not kept. -/
def ruledOn (visits : List (Visit κ I O)) : List (Visit κ I O) :=
  visits.take (visits.findIdx (fun visit => !(rule visit.decision).keeps) + 1)

/-- What the run does after these steps: it is that of the track for which the last of them leaves,
if it does. -/
def afterwards (follow : Track → I → m (Decision Track O)) (visits : List (Visit κ I O))
    (inputs : List I) : m (List (Entry O)) :=
  match visits.getLast?.bind fun visit => (rule visit.decision).track? with
  | none => pure []
  | some track => (Schedule.mk Track track follow).run inputs

/-- A step acts, and then its decision is told and ruled on. -/
def rulingTurn (act : κ → I → m Unit) (tell : Decision κ O → m Unit) (visit : Visit κ I O) :
    m (Entry O) := do
  act visit.state visit.input
  tell visit.decision
  return (rule visit.decision).entry

variable (visit : Visit κ I O) (visits : List (Visit κ I O))

theorem ruledOn_of_kept (kept : (rule visit.decision).keeps = true) :
    ruledOn rule (visit :: visits) = visit :: ruledOn rule visits := by
  simp [ruledOn, List.findIdx_cons, kept]

theorem ruledOn_of_not_kept (ended : (rule visit.decision).keeps = false) :
    ruledOn rule (visit :: visits) = [visit] := by
  simp [ruledOn, List.findIdx_cons, ended]

variable (follow : Track → I → m (Decision Track O)) (inputs : List I)

theorem afterwards_of_kept (kept : (rule visit.decision).keeps = true) :
    afterwards rule follow (visit :: visits) inputs = afterwards rule follow visits inputs := by
  have stays : (rule visit.decision).track? = none := Ruling.track?_of_keeps kept
  cases visits with
  | nil => simp [afterwards, stays]
  | cons other visits => simp [afterwards, List.getLast?_cons_cons]

theorem afterwards_singleton :
    afterwards rule follow [visit] inputs =
      match (rule visit.decision).track? with
      | none => pure []
      | some track => (Schedule.mk Track track follow).run inputs := rfl

end Rule

namespace Schedule

section Step

variable (schedule : Schedule m I O) (follow : Track → I → m (Decision Track O))
  (f : Decision schedule.State O → m (Decision (schedule.State ⊕ Track) O))

theorem mapDecision_step_inl (state : schedule.State) (input : I) :
    (schedule.mapDecision Track follow f).step (.inl state) input =
      (do f (← schedule.step state input)) := rfl

theorem mapDecision_step_inr (track : Track) (input : I) :
    (schedule.mapDecision Track follow f).step (.inr track) input =
      (do return (← follow track input).redirect .inr) := rfl

variable [LawfulMonad m]

theorem mapDecision_runFrom_inr (start : Track) (inputs : List I) (track : Track) :
    (schedule.mapDecision Track follow f).runFrom (.inr track) inputs =
      (mk Track start follow).runFrom track inputs := by
  induction inputs generalizing track with
  | nil => rfl
  | cons input inputs ih =>
      simp only [runFrom]
      rw [mapDecision_step_inr]
      simp only [bind_assoc, pure_bind]
      refine bind_congr fun decision => ?_
      cases decision with
      | done output => rfl
      | proceed output delay next => simp only [Decision.redirect, ih]

theorem mapDecision_runFrom_inl (state : schedule.State) (input : I) (inputs : List I) :
    (schedule.mapDecision Track follow f).runFrom (.inl state) (input :: inputs) = (do
      match ← f (← schedule.step state input) with
      | .done output => return [(output, none)]
      | .proceed output delay (.inl next) =>
          return (output, some delay) ::
            (← (schedule.mapDecision Track follow f).runFrom (.inl next) inputs)
      | .proceed output delay (.inr track) =>
          return (output, some delay) :: (← (mk Track track follow).run inputs)) := by
  refine (bind_assoc (schedule.step state input) f _).trans ?_
  refine bind_congr fun decision => bind_congr fun revised => ?_
  cases revised with
  | done output => rfl
  | proceed output delay next =>
      cases next with
      | inl next => rfl
      | inr track => simp only [schedule.mapDecision_runFrom_inr follow f track inputs track, run]

end Step

section Acting

variable [LawfulMonad m] (plan : Schedule Id I O) (follow : Track → I → m (Decision Track O))
  (act : plan.State → I → m Unit) (tell : Decision plan.State O → m Unit)
  (rule : (decided : Decision plan.State O) → Ruling Track decided)

theorem mapDecision_acting_runFrom (inputs : List I) (state : plan.State) :
    ((plan.acting act).mapDecision Track follow fun decision => do
      tell decision
      return (rule decision).decision).runFrom (.inl state) inputs = (do
        let visits := ruledOn rule (plan.visitsFrom (some state) inputs)
        let shown ← visits.mapM (rulingTurn rule act tell)
        let rest ← afterwards rule follow visits (inputs.drop visits.length)
        return shown ++ rest) := by
  induction inputs generalizing state with
  | nil => simp [runFrom, ruledOn, afterwards]
  | cons input inputs ih =>
      rw [mapDecision_runFrom_inl, visitsFrom_cons]
      simp only [acting, bind_assoc, pure_bind]
      generalize (plan.step state input : Decision plan.State O) = decision
      -- where the continuation is kept the visits go on, and otherwise this one is the last
      cases kept : (rule decision).keeps with
      | false =>
          have last := ruledOn_of_not_kept rule ⟨state, input, decision⟩
            (plan.visitsFrom decision.next? inputs) kept
          simp only [last, List.mapM_cons, List.mapM_nil, rulingTurn, afterwards_singleton,
            bind_assoc, pure_bind]
          refine bind_congr fun _ => bind_congr fun _ => ?_
          generalize rule decision = ruling at kept
          cases ruling with
          | finish output => simp
          | keep output delay => simp at kept
          | leave output delay track => simp
      | true =>
          have first := ruledOn_of_kept rule ⟨state, input, decision⟩
            (plan.visitsFrom decision.next? inputs) kept
          have later (visits : List (Visit plan.State I O)) (inputs : List I) :=
            afterwards_of_kept rule ⟨state, input, decision⟩ visits follow inputs kept
          simp only [first, later, List.mapM_cons, rulingTurn, bind_assoc, pure_bind]
          refine bind_congr fun _ => bind_congr fun _ => ?_
          generalize rule decision = ruling at kept
          cases ruling with
          | finish output => simp at kept
          | keep output delay => simp [ih]
          | leave output delay track => simp at kept

end Acting
end Schedule

section Algebra

variable [LawfulMonad m] (decided : m (Decision κ O))

theorem bind_redirect (route : κ → ι) :
    (do return (← decided).redirect route) = (·.bimap route id) <$> decided := by
  rw [Decision.bimap_id, ← bind_pure_comp]

theorem bind_redirect_redirect (route : κ → ι) {η : Type} (further : ι → η) :
    (do return (← decided).redirect (further ∘ route)) =
      (·.bimap further id) <$> (do return (← decided).redirect route) := by
  simp only [Decision.bimap_id, map_bind, map_pure, Decision.redirect_redirect]

def unnested : (κ ⊕ Empty) ⊕ Track → κ ⊕ Track := Sum.map (Sum.elim id nofun) id

theorem map_inl_unnested : Sum.map .inl id ∘ unnested = (id : (κ ⊕ Empty) ⊕ Track → _) := by
  funext continuation
  rcases continuation with (next | track) | track
  · rfl
  · exact nomatch track
  · rfl

def afterStaying (g : Decision (κ ⊕ Empty) O → m (Decision ((κ ⊕ Empty) ⊕ Track) O))
    (f : Decision κ O → m (Decision (κ ⊕ Empty) O)) (decision : Decision κ O) :
    m (Decision (κ ⊕ Track) O) := do
  return (← g (← f decision)).redirect unnested

theorem bind_afterStaying (g : Decision (κ ⊕ Empty) O → m (Decision ((κ ⊕ Empty) ⊕ Track) O))
    (f : Decision κ O → m (Decision (κ ⊕ Empty) O)) :
    decided >>= f >>= g = (·.bimap (Sum.map .inl id) id) <$> (decided >>= afterStaying g f) := by
  rw [Decision.bimap_id, bind_assoc]
  simp only [afterStaying, map_bind, map_pure, Decision.redirect_redirect, map_inl_unnested,
    Decision.redirect_id, id, bind_pure]

namespace Schedule

variable (schedule : Schedule m I O) (follow : Track → I → m (Decision Track O))

def passedOn :
    Simulation schedule
      (schedule.mapDecision Track follow fun decision => pure (decision.redirect .inl)) id where
  carry := .inl
  start := rfl
  step state input :=
    (schedule.mapDecision_step_inl follow _ state input).trans
      (bind_redirect (schedule.step state input) Sum.inl)

def fused (f : Decision schedule.State O → m (Decision (schedule.State ⊕ Empty) O))
    (g : Decision (schedule.State ⊕ Empty) O →
      m (Decision ((schedule.State ⊕ Empty) ⊕ Track) O)) :
    Simulation (schedule.mapDecision Track follow (afterStaying g f))
      ((schedule.mapDecision Empty nofun f).mapDecision Track follow g) id where
  carry := Sum.map .inl id
  start := rfl
  step := by
    intro state input
    cases state with
    | inl state => exact bind_afterStaying (schedule.step state input) g f
    | inr track => exact bind_redirect_redirect (follow track input) Sum.inr (Sum.map Sum.inl id)

/-- The law of `mapDecision`. Each step goes through `f`, once; the run then ends, goes on from a
continuation of the schedule, again through `f`, or leaves for a track, whose own run is the rest of
it. So where the schedule is a plan, its decisions are told to `f` in order up to the first whose
continuation is not kept. Passing decisions on as they are changes no run, and passing them through
one closure that never leaves and then another is passing them through both at once. -/
theorem mapDecision_runs (inputs : List I) :
    (∀ (f : Decision schedule.State O → m (Decision (schedule.State ⊕ Track) O))
      (state : schedule.State) (input : I),
      (schedule.mapDecision Track follow f).runFrom (.inl state) (input :: inputs) = (do
        match ← f (← schedule.step state input) with
        | .done output => return [(output, none)]
        | .proceed output delay (.inl next) =>
            return (output, some delay) ::
              (← (schedule.mapDecision Track follow f).runFrom (.inl next) inputs)
        | .proceed output delay (.inr track) =>
            return (output, some delay) :: (← (mk Track track follow).run inputs))) ∧
    (∀ (plan : Schedule Id I O) (act : plan.State → I → m Unit)
      (tell : Decision plan.State O → m Unit)
      (rule : (decided : Decision plan.State O) → Ruling Track decided),
      ((plan.acting act).mapDecision Track follow fun decision => do
        tell decision
        return (rule decision).decision).run inputs = (do
          let visits := ruledOn rule (plan.visits inputs)
          let shown ← visits.mapM (rulingTurn rule act tell)
          let rest ← afterwards rule follow visits (inputs.drop visits.length)
          return shown ++ rest)) ∧
    (schedule.mapDecision Track follow fun decision => pure (decision.redirect .inl)).run inputs =
      schedule.run inputs ∧
    (∀ (f : Decision schedule.State O → m (Decision (schedule.State ⊕ Empty) O))
      (g : Decision (schedule.State ⊕ Empty) O →
        m (Decision ((schedule.State ⊕ Empty) ⊕ Track) O)),
      ((schedule.mapDecision Empty nofun f).mapDecision Track follow g).run inputs =
        (schedule.mapDecision Track follow (afterStaying g f)).run inputs) := by
  refine ⟨?_, ?_, (schedule.passedOn follow).run_eq inputs, ?_⟩
  · intro f state input
    exact schedule.mapDecision_runFrom_inl follow f state input inputs
  · intro plan act tell rule
    exact plan.mapDecision_acting_runFrom follow act tell rule inputs plan.start
  · intro f g
    exact (schedule.fused follow f g).run_eq inputs

theorem mapDecision_runs_recurs :
    let rule (decided : Decision Nat Nat) : Ruling Unit decided :=
      match decided with
      | .done output => .leave output .zero ()
      | .proceed output delay _ => .keep output delay
    let follow (_ _ : Unit) : Effect (Decision Unit Nat) := pure (.done 7)
    let act (_ : Nat) (_ : Unit) : Effect Unit := Session.trace "step" []
    let tell (_ : Decision Nat Nat) : Effect Unit := Session.trace "ruling" []
    let visits := ruledOn rule ((recurs 1).visits (List.replicate 5 ()))
    (((recurs 1).acting act).mapDecision Unit follow fun decision => do
      tell decision
      return (rule decision).decision).run (List.replicate 5 ()) = (do
        let shown ← visits.mapM (rulingTurn rule act tell)
        let rest ← afterwards rule follow visits [(), (), ()]
        return shown ++ rest) ∧
    visits.map (·.output) = [0, 1] := by
  intro rule follow act tell visits
  have runs := mapDecision_runs (m := Effect) (recurs 1) follow (List.replicate 5 ())
  exact ⟨runs.2.1 (recurs 1) act tell rule, rfl⟩

end Schedule
end Algebra
end Cadence
