import Cadence.Proofs.CalmSession
import Cadence.Proofs.Outcome

namespace Cadence

variable {ε σ E O T α : Type}

def Work.Yields (holds : α → Prop) : Work (EStateM ε σ) α → Prop
  | .ready poll => Ensures holds poll
  | .pending poll rest => Ensures (Sum.elim (fun _ => True) holds) poll ∧ rest.Yields holds

def Driver.Pardons (driver : Driver (EStateM ε σ) E) : Except E T → Prop
  | .ok _ => False
  | .error error => Ensures (· = .recoverable) (driver.classify error)

/-- No call ends otherwise than with an error that is recoverable. -/
def FailsRecoverably (driver : Driver (EStateM ε σ) E) (action : Action (EStateM ε σ) E T) : Prop :=
  ∀ number < action.calls, Ensures (Work.Yields driver.Pardons) (action.call (number + 1))

def RetryEnd.IsUnsettled : RetryEnd E O T → Prop
  | .cancelled | .exhausted .. => True
  | .fatal _ | .succeeded _ => False

namespace Driver

variable (driver : Driver (EStateM ε σ) E)

theorem race_ensures {holds : α → Prop} (work : Work (EStateM ε σ) α)
    (yields : work.Yields holds) :
    Ensures (fun result => ∀ value ∈ result, holds value) (driver.race work) := by
  have none_ensures : Ensures (fun result : Option α => ∀ value ∈ result, holds value)
      (pure none : EStateM ε σ (Option α)) := .pure nofun
  have some_ensures {value : α} (here : holds value) :
      Ensures (fun result : Option α => ∀ value ∈ result, holds value)
        (pure (some value) : EStateM ε σ (Option α)) := .pure fun _ member => by
    obtain rfl := Option.mem_some.mp member
    exact here
  induction work with
  | ready poll =>
      refine (Ensures.any _).bind fun cancelled _ => ?_
      split
      · exact none_ensures
      · exact Ensures.bind yields fun value here => some_ensures here
  | pending poll rest ih =>
      refine (Ensures.any _).bind fun cancelled _ => ?_
      split
      · exact none_ensures
      · refine yields.1.bind fun polled here => ?_
        cases polled with
        | inl wake => exact (Ensures.any _).bind fun _ _ => ih yields.2
        | inr value => exact some_ensures here

theorem attempt_ensures {holds : α → Prop} (made : Nat) {call : EStateM ε σ (Work (EStateM ε σ) α)}
    (yields : Ensures (Work.Yields holds) call) :
    Ensures (fun result => ∀ value ∈ result, holds value) (driver.attempt made call) := by
  refine (Ensures.any _).bind fun cancelled _ => ?_
  split
  · exact (Ensures.any _).bind fun _ _ => .pure nofun
  · refine yields.bind fun work here => (driver.race_ensures work here).bind fun result held => ?_
    cases result with
    | none => exact (Ensures.any _).bind fun _ _ => .pure nofun
    | some value => exact .pure held

theorem retryFrom_ensures {action : Action (EStateM ε σ) E T}
    (fails : FailsRecoverably driver action) (schedule : Schedule (EStateM ε σ) E O)
    (remaining made : Nat) (state : schedule.State) (scripted : made + remaining = action.calls) :
    Ensures RetryEnd.IsUnsettled (driver.retryFrom schedule action remaining made state) := by
  induction remaining generalizing made state with
  | zero =>
      refine (Ensures.any _).bind fun result _ => ?_
      cases result with
      | none => exact .pure trivial
      | some result => exact result.elim
  | succ remaining ih =>
      have callable : made < action.calls := by omega
      refine (driver.attempt_ensures made (fails made callable)).bind fun result pardoned => ?_
      match result with
      | none => exact .pure trivial
      | some (.ok value) => exact (pardoned _ rfl).elim
      | some (.error error) =>
          refine Ensures.bind (pardoned _ rfl) fun severity recoverable => ?_
          cases recoverable
          refine (Ensures.any _).bind fun decision _ => ?_
          cases decision with
          | done output => exact (Ensures.any _).bind fun _ _ => .pure trivial
          | proceed output delay next =>
              refine (Ensures.any _).bind fun _ _ => (Ensures.any _).bind fun slept _ => ?_
              split
              · exact ih (made + 1) next (by omega)
              · exact .pure trivial

end Driver

namespace Attempt

variable {holds : Except Value Value → Prop} {attempt : Attempt} {token : Token}

end Attempt

end Cadence
