import Cadence.Driver
import Cadence.Proofs.Trail

/-!
Drivers that are watched: a run leaves the deeds it does and the answers it gets, each in its place.
Watching changes nothing else in any of the six ways to run.
-/
namespace Cadence

open Traced

/-- What a run does. `cancelled` is what the token shows at that moment. A wait asked for is a
request; polls are those of attempts and of waits. -/
inductive Deed (S I O E T : Type) where
  | checked (cancelled : Bool)
  | called (number : Nat) (cancelled : Bool)
  | polled (cancelled : Bool)
  | finished (result : Except E T)
  | classified (error : E) (severity : Severity)
  | stepped (state : S) (input : I) (decision : Decision S O)
  | requested (delay : Duration)
  | reported (report : Report)
  | fellBack (error : E) (last : Option O)

variable {ε σ S I O E T A α : Type} (flag : σ → Bool)

namespace Work

def watched (answered : α → List (Deed S I O E T)) :
    Work (EStateM ε σ) α → Work (Traced ε σ (Deed S I O E T)) α
  | .ready poll => .ready (record (fun world => [.polled (flag world)]) answered poll)
  | .pending poll rest =>
      .pending (record (fun world => [.polled (flag world)]) (Sum.elim (fun _ => []) answered) poll)
        (watched answered rest)

def ordered (deed : σ → Deed S I O E T) (answered : α → List (Deed S I O E T))
    (order : EStateM ε σ (Work (EStateM ε σ) α)) :
    Traced ε σ (Deed S I O E T) (Work (Traced ε σ (Deed S I O E T)) α) := do
  return (← record (fun world => [deed world]) (fun _ => []) order).watched flag answered

end Work

def Driver.watched (driver : Driver (EStateM ε σ) E) :
    Driver (Traced ε σ (Deed S I O E T)) E where
  cancelled := record (fun world => [.checked (flag world)]) (fun _ => []) driver.cancelled
  sleep delay := Work.ordered flag (fun _ => .requested delay) (fun _ => []) (driver.sleep delay)
  classify error :=
    record (fun _ => []) (fun severity => [.classified error severity]) (driver.classify error)
  log report := record (fun _ => [.reported report]) (fun _ => []) (driver.log report)
  idle wake := record (fun _ => []) (fun _ => []) (driver.idle wake)

def Action.watched (action : Action (EStateM ε σ) E T) :
    Action (Traced ε σ (Deed S I O E T)) E T where
  calls := action.calls
  call number :=
    Work.ordered flag (fun world => .called number (flag world)) (fun result => [.finished result])
      (action.call number)
  exhausted number :=
    Work.ordered flag (fun world => .called number (flag world)) nofun (action.exhausted number)

def Schedule.watched (schedule : Schedule (EStateM ε σ) I O) :
    Schedule (Traced ε σ (Deed schedule.State I O E T)) I O where
  State := schedule.State
  start := schedule.start
  step state input :=
    record (fun _ => []) (fun decision => [.stepped state input decision])
      (schedule.step state input)

def watchedFallback (fallback : E → Option O → EStateM ε σ A) (error : E) (last : Option O) :
    Traced ε σ (Deed S I O E T) A :=
  record (fun _ => [.fellBack error last]) (fun _ => []) (fallback error last)

def watchedLastResort (fallback : E → O → EStateM ε σ A) (error : E) (output : O) :
    Traced ε σ (Deed S I O E T) A :=
  record (fun _ => [.fellBack error (some output)]) (fun _ => []) (fallback error output)

namespace Driver

variable (driver : Driver (EStateM ε σ) E)

@[simp] theorem erase_cancelled :
    ((driver.watched flag).cancelled : Traced ε σ (Deed S I O E T) Bool).erase =
      driver.cancelled := erase_record ..

@[simp] theorem erase_classify (error : E) :
    ((driver.watched flag).classify error : Traced ε σ (Deed S I O E T) Severity).erase =
      driver.classify error := erase_record ..

@[simp] theorem erase_log (report : Report) :
    ((driver.watched flag).log report : Traced ε σ (Deed S I O E T) Unit).erase =
      driver.log report := erase_record ..

@[simp] theorem erase_idle (wake : Wake) :
    ((driver.watched flag).idle wake : Traced ε σ (Deed S I O E T) Unit).erase =
      driver.idle wake := erase_record ..

@[simp] theorem erase_ordered (deed : σ → Deed S I O E T) (answered : α → List (Deed S I O E T))
    (order : EStateM ε σ (Work (EStateM ε σ) α)) :
    (Work.ordered flag deed answered order).erase =
      order >>= fun work => pure (work.watched flag answered) := by
  simp only [Work.ordered, erase_bind, erase_pure, erase_record]

theorem erase_race (answered : α → List (Deed S I O E T)) (work : Work (EStateM ε σ) α) :
    ((driver.watched flag).race (work.watched flag answered)).erase = driver.race work := by
  induction work with
  | ready poll =>
      simp only [Work.watched, race, erase_bind, erase_cancelled, erase_ite, erase_pure,
        erase_record]
  | pending poll rest ih =>
      simp only [Work.watched, race, erase_bind, erase_cancelled, erase_ite, erase_pure,
        erase_record]
      refine bind_congr fun cancelled => ?_
      congr 1
      refine bind_congr fun polled => ?_
      cases polled with
      | inl wake => simp only [erase_bind, erase_idle, ih]
      | inr result => rfl

theorem erase_attempt (made : Nat) (deed : σ → Deed S I O E T)
    (answered : α → List (Deed S I O E T)) (order : EStateM ε σ (Work (EStateM ε σ) α)) :
    ((driver.watched flag).attempt made (Work.ordered flag deed answered order)).erase =
      driver.attempt made order := by
  simp only [attempt, erase_bind, erase_cancelled, erase_ite, erase_log, erase_pure,
    erase_ordered, bind_assoc, pure_bind, erase_race]
  refine bind_congr fun cancelled => ?_
  congr 1
  refine bind_congr fun work => bind_congr fun result => ?_
  cases result with
  | none => simp only [erase_bind, erase_log, erase_pure]
  | some result => rfl

theorem erase_wait (made : Nat) (delay : Duration) :
    ((driver.watched flag).wait made delay : Traced ε σ (Deed S I O E T) Bool).erase =
      driver.wait made delay := by
  simp only [wait, erase_bind, erase_ite, erase_pure]
  congr 1
  simp only [Driver.watched, erase_ordered, bind_assoc, pure_bind]
  refine bind_congr fun work => ?_
  rw [← erase_race flag driver (fun _ => ([] : List (Deed S I O E T))) work]
  refine bind_congr fun slept => ?_
  cases slept with
  | none => simp only [erase_bind, erase_record, erase_pure]
  | some _ => rfl

theorem erase_repeatFrom (schedule : Schedule (EStateM ε σ) I O)
    (action : Action (EStateM ε σ) E I) (remaining made : Nat) (state : schedule.State)
    (last : Option O) :
    ((driver.watched flag).repeatFrom schedule.watched (action.watched flag) remaining made state
      last).erase = driver.repeatFrom schedule action remaining made state last := by
  induction remaining generalizing made state last with
  | zero =>
      simp only [repeatFrom, Action.watched, erase_bind, erase_attempt]
      refine bind_congr fun result => ?_
      cases result with
      | none => rfl
      | some result => exact result.elim
  | succ remaining ih =>
      simp only [repeatFrom, Action.watched, erase_bind, erase_attempt]
      refine bind_congr fun result => ?_
      match result with
      | none => rfl
      | some (.error error) =>
          simp only [erase_bind, erase_classify]
          refine bind_congr fun severity => ?_
          cases severity <;> simp only [erase_bind, erase_log, erase_pure]
      | some (.ok input) =>
          simp only [erase_bind, Schedule.watched, erase_record]
          refine bind_congr fun decision => ?_
          cases decision with
          | done output => simp only [erase_bind, erase_log, erase_pure]
          | proceed output delay next =>
              simp only [erase_bind, erase_log, erase_wait, erase_ite, erase_pure]
              refine bind_congr fun _ => bind_congr fun slept => ?_
              congr 1
              exact ih (made + 1) next (some output)

theorem erase_retryFrom (schedule : Schedule (EStateM ε σ) E O)
    (action : Action (EStateM ε σ) E T) (remaining made : Nat) (state : schedule.State) :
    ((driver.watched flag).retryFrom schedule.watched (action.watched flag) remaining made
      state).erase = driver.retryFrom schedule action remaining made state := by
  induction remaining generalizing made state with
  | zero =>
      simp only [retryFrom, Action.watched, erase_bind, erase_attempt]
      refine bind_congr fun result => ?_
      cases result with
      | none => rfl
      | some result => exact result.elim
  | succ remaining ih =>
      simp only [retryFrom, Action.watched, erase_bind, erase_attempt]
      refine bind_congr fun result => ?_
      match result with
      | none => rfl
      | some (.ok value) => simp only [erase_ite, erase_bind, erase_log, erase_pure]
      | some (.error error) =>
          simp only [erase_bind, erase_classify]
          refine bind_congr fun severity => ?_
          cases severity with
          | fatal => simp only [erase_bind, erase_log, erase_pure]
          | recoverable =>
              simp only [erase_bind, Schedule.watched, erase_record]
              refine bind_congr fun decision => ?_
              cases decision with
              | done output => simp only [erase_bind, erase_log, erase_pure]
              | proceed output delay next =>
                  simp only [erase_bind, erase_log, erase_wait, erase_ite, erase_pure]
                  refine bind_congr fun _ => bind_congr fun slept => ?_
                  congr 1
                  exact ih (made + 1) next

section Repeat

variable (schedule : Schedule (EStateM ε σ) I O) (action : Action (EStateM ε σ) E I)

theorem erase_repeatEnd :
    ((driver.watched flag).repeatEnd schedule.watched (action.watched flag)).erase =
      driver.repeatEnd schedule action :=
  erase_repeatFrom flag driver schedule action action.calls 0 schedule.start none

theorem erase_repeatUnder :
    ((driver.watched flag).repeatUnder schedule.watched (action.watched flag)).erase =
      driver.repeatUnder schedule action := by
  simp only [repeatUnder, erase_bind, erase_repeatEnd]
  refine bind_congr fun finish => ?_
  cases finish <;> rfl

theorem erase_repeatOrElseEither (fallback : E → Option O → EStateM ε σ A) :
    ((driver.watched flag).repeatOrElseEither schedule.watched (action.watched flag)
      (watchedFallback fallback)).erase = driver.repeatOrElseEither schedule action fallback := by
  simp only [repeatOrElseEither, erase_bind, erase_repeatEnd]
  refine bind_congr fun finish => ?_
  cases finish with
  | failed error last => simp only [watchedFallback, erase_bind, erase_record, erase_pure]
  | _ => rfl

theorem erase_repeatOrElse (fallback : E → Option O → EStateM ε σ O) :
    ((driver.watched flag).repeatOrElse schedule.watched (action.watched flag)
      (watchedFallback fallback)).erase = driver.repeatOrElse schedule action fallback := by
  simp only [repeatOrElse, erase_bind, erase_repeatOrElseEither, erase_pure]

end Repeat

section Retry

variable (schedule : Schedule (EStateM ε σ) E O) (action : Action (EStateM ε σ) E T)

theorem erase_retryEnd :
    ((driver.watched flag).retryEnd schedule.watched (action.watched flag)).erase =
      driver.retryEnd schedule action :=
  erase_retryFrom flag driver schedule action action.calls 0 schedule.start

theorem erase_retryUnder :
    ((driver.watched flag).retryUnder schedule.watched (action.watched flag)).erase =
      driver.retryUnder schedule action := by
  simp only [retryUnder, erase_bind, erase_retryEnd]
  refine bind_congr fun finish => ?_
  cases finish <;> rfl

theorem erase_retryOrElseEither (fallback : E → O → EStateM ε σ A) :
    ((driver.watched flag).retryOrElseEither schedule.watched (action.watched flag)
      (watchedLastResort fallback)).erase = driver.retryOrElseEither schedule action fallback := by
  simp only [retryOrElseEither, erase_bind, erase_retryEnd]
  refine bind_congr fun finish => ?_
  cases finish with
  | exhausted attempts error output =>
      simp only [watchedLastResort, erase_bind, erase_record, erase_pure]
  | _ => rfl

theorem erase_retryOrElse (fallback : E → O → EStateM ε σ T) :
    ((driver.watched flag).retryOrElse schedule.watched (action.watched flag)
      (watchedLastResort fallback)).erase = driver.retryOrElse schedule action fallback := by
  simp only [retryOrElse, erase_bind, erase_retryOrElseEither, erase_pure]

end Retry

end Driver
end Cadence
