import Cadence.Schedule

/-!
Unrolled runs of schedules whose decisions depend on nothing but state and input. Such a plan may
keep words of a source of its own, or a count, in its states; whatever else its closures do is an
act, which may break off.
-/
namespace Cadence

variable {m : Type → Type} [Monad m] {S I O : Type}

structure Visit (S I O : Type) where
  state : S
  input : I
  decision : Decision S O

namespace Visit

def output (visit : Visit S I O) : O := visit.decision.output

def delay? (visit : Visit S I O) : Option Duration := visit.decision.delay?

def next? (visit : Visit S I O) : Option S := visit.decision.next?

def entry (visit : Visit S I O) : Schedule.Entry O := (visit.output, visit.delay?)

@[simp] theorem output_mk (state : S) (input : I) (decision : Decision S O) :
    (mk state input decision).output = decision.output := rfl

@[simp] theorem delay?_mk (state : S) (input : I) (decision : Decision S O) :
    (mk state input decision).delay? = decision.delay? := rfl

@[simp] theorem next?_mk (state : S) (input : I) (decision : Decision S O) :
    (mk state input decision).next? = decision.next? := rfl

end Visit

namespace Schedule

/-- Acts on each step and then decides as planned. -/
abbrev acting (plan : Schedule Id I O) (act : plan.State → I → m Unit) : Schedule m I O where
  State := plan.State
  start := plan.start
  step state input := do
    act state input
    return plan.step state input

variable (plan : Schedule Id I O)

/-- A step from where the run is, unless it has ended. -/
def look (input : I) (place : Option plan.State) : Option (Visit plan.State I O) :=
  place.map fun state => ⟨state, input, plan.step state input⟩

def visitsFrom : Option plan.State → List I → List (Visit plan.State I O)
  | _, [] => []
  | place, input :: inputs =>
      match plan.look input place with
      | none => []
      | some visit => visit :: visitsFrom visit.next? inputs

def visits (inputs : List I) : List (Visit plan.State I O) := plan.visitsFrom plan.start inputs

@[simp] theorem visitsFrom_nil (place : Option plan.State) : plan.visitsFrom place [] = [] := rfl

@[simp] theorem visitsFrom_none (inputs : List I) : plan.visitsFrom none inputs = [] := by
  cases inputs <;> rfl

theorem visitsFrom_cons (state : plan.State) (input : I) (inputs : List I) :
    plan.visitsFrom (some state) (input :: inputs) =
      ⟨state, input, plan.step state input⟩ ::
        plan.visitsFrom (plan.step state input : Decision plan.State O).next? inputs := rfl

theorem runFrom_eq_visitsFrom (state : plan.State) (inputs : List I) :
    plan.runFrom state inputs = (plan.visitsFrom (some state) inputs).map Visit.entry := by
  induction inputs generalizing state with
  | nil => rfl
  | cons input inputs ih =>
      cases decided : (plan.step state input : Decision plan.State O) with
      | done output =>
          simp only [runFrom, visitsFrom, look, Option.map_some, decided]
          cases inputs <;> rfl
      | proceed output delay next =>
          simp only [runFrom, visitsFrom, look, Option.map_some, decided]
          exact congrArg _ (ih next)

theorem visitsFrom_inputs (place : Option plan.State) (inputs : List I) :
    (plan.visitsFrom place inputs).map Visit.input <+: inputs := by
  induction inputs generalizing place with
  | nil => exact List.nil_prefix
  | cons input inputs ih =>
      cases place with
      | none =>
          rw [visitsFrom_none]
          exact List.nil_prefix
      | some state => exact List.prefix_cons_inj input |>.mpr (ih _)

theorem visitsFrom_take (place : Option plan.State) (inputs : List I) (count : Nat) :
    plan.visitsFrom place (inputs.take count) = (plan.visitsFrom place inputs).take count := by
  induction inputs generalizing place count with
  | nil => simp
  | cons input inputs ih =>
      cases place with
      | none => simp
      | some state =>
          cases count with
          | zero => simp
          | succ count => rw [List.take_succ_cons, visitsFrom_cons, visitsFrom_cons, ih,
              List.take_succ_cons]

theorem run_eq_visits (inputs : List I) : plan.run inputs = (plan.visits inputs).map Visit.entry :=
  plan.runFrom_eq_visitsFrom plan.start inputs

theorem length_visits_le (inputs : List I) : (plan.visits inputs).length ≤ inputs.length := by
  have taken := (plan.visitsFrom_inputs (some plan.start) inputs).length_le
  rwa [List.length_map] at taken

end Schedule
end Cadence
