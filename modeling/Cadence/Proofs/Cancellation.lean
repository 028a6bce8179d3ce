import Cadence.Proofs.Heed
import Cadence.Scenario
import Cadence.Schedule.Primitive
import Mathlib.Data.List.Basic

/-!
Cancellation of drivers. The flag may become set by any effect of the run. Nothing is called or
polled while it is set, a look that finds it set ends the run, and only such a look does so with
`Cancelled`.
-/
namespace Cadence

open Traced

variable {ε σ S I O E T A α : Type} {flag : σ → Bool}

theorem record_clear {before : σ → List (Deed S I O E T)} {answered : α → List (Deed S I O E T)}
    (clearBefore : ∀ world, Clear (before world)) (clearAnswered : ∀ value, Clear (answered value))
    (effect : EStateM ε σ α) (world : σ) : Clear (record before answered effect world).deeds := by
  cases ran : effect world with
  | ok value after =>
      rw [record_run_ok before answered ran]
      exact (clearBefore world).append (clearAnswered value)
  | error fault after =>
      rw [record_run_error before answered ran]
      exact clearBefore world

theorem Clear.single {deed : Deed S I O E T} (free : deed.isFree = true) : Clear [deed] :=
  .free free .nil

def Unreported (told : List (Deed S I O E T)) : Prop := told = []

def Reported (told : List (Deed S I O E T)) : Prop := ∃ made, told = [.reported ⟨.cancelled, made⟩]

theorem pure_stops (stop : α) :
    Stops flag stop Unreported (pure stop : Traced ε σ (Deed S I O E T) α) :=
  fun world set => ⟨world, [], rfl, set, rfl⟩

namespace Flagged

variable {driver : Driver (EStateM ε σ) E}

theorem report_stops (flagged : Flagged flag driver) (made : Nat) (stop : α) :
    Stops flag stop Reported (do
      (driver.watched flag).log ⟨.cancelled, made⟩
      return stop : Traced ε σ (Deed S I O E T) α) := by
  intro world set
  obtain ⟨after, ran, keeps⟩ := flagged.logs ⟨.cancelled, made⟩ world
  refine ⟨after, [.reported ⟨.cancelled, made⟩], ?_, keeps set, made, rfl⟩
  have logged : ((driver.watched flag).log ⟨.cancelled, made⟩ : Traced ε σ (Deed S I O E T) Unit)
      world = ⟨.ok (), after, [.reported ⟨.cancelled, made⟩]⟩ := by
    simp only [Driver.watched, record, ran, List.append_nil]
  rw [bind_run_ok (by rw [logged]), logged]
  rfl

theorem race_heedful (flagged : Flagged flag driver) {answered : α → List (Deed S I O E T)}
    (clear : ∀ value, Clear (answered value)) (work : Work (EStateM ε σ) α) :
    Heedful flag none Unreported ((driver.watched flag).race (work.watched flag answered)) := by
  induction work with
  | ready poll =>
      refine Heedful.entry flagged .polled (fun _ => rfl) clear (pure_stops none) ?_
      intro value
      exact Heedful.pure nofun
  | pending poll rest ih =>
      have answers : ∀ polled : Wake ⊕ α,
          Clear (Sum.elim (fun _ => []) answered polled : List (Deed S I O E T)) := by
        intro polled
        cases polled with
        | inl wake => exact .nil
        | inr value => exact clear value
      refine Heedful.entry flagged .polled (fun _ => rfl) answers (pure_stops none) ?_
      intro polled
      cases polled with
      | inl wake =>
          have idles := record_clear (S := S) (I := I) (O := O) (E := E) (T := T)
            (fun _ : σ => .nil) (fun _ => .nil) (driver.idle wake)
          exact Heedful.clear_bind idles fun _ => ih
      | inr value => exact Heedful.pure nofun

theorem attempt_heedful (flagged : Flagged flag driver) (deed : Bool → Deed S I O E T)
    (enters : ∀ cancelled, (deed cancelled).shown? = some cancelled)
    {answered : α → List (Deed S I O E T)} (clear : ∀ value, Clear (answered value)) (made : Nat)
    (order : EStateM ε σ (Work (EStateM ε σ) α)) :
    Heedful flag none Reported ((driver.watched flag).attempt made
      (Work.ordered flag (fun world => deed (flag world)) answered order)) := by
  simp only [Driver.attempt, Work.ordered, bind_assoc, pure_bind]
  refine Heedful.entry flagged deed enters (fun _ => .nil) (flagged.report_stops made none) ?_
  intro work
  refine (flagged.race_heedful clear work).bind_some ?_ (flagged.report_stops (made + 1) none) ?_
  · intro result
    exact Heedful.pure (by rintro ⟨⟩)
  · rintro last told rfl ends
    exact ends

theorem wait_heedful (flagged : Flagged flag driver) (made : Nat) (delay : Duration) :
    Heedful flag false Reported ((driver.watched flag).wait made delay :
      Traced ε σ (Deed S I O E T) Bool) := by
  by_cases zero : delay.isZero = true
  · simp only [Driver.wait, zero, ↓reduceIte]
    exact Heedful.pure (by rintro ⟨⟩)
  · have positive : delay.isZero = false := by simpa using zero
    have order : ((driver.watched flag).sleep delay : Traced ε σ (Deed S I O E T) _) =
        Work.ordered flag (fun _ => .requested delay) (fun _ => []) (driver.sleep delay) := rfl
    simp only [Driver.wait, positive, Bool.false_eq_true, ↓reduceIte, order, Work.ordered,
      bind_assoc, pure_bind]
    refine Heedful.clear_bind (record_clear (fun _ => .single rfl) (fun _ => .nil) _) ?_
    intro work
    refine (flagged.race_heedful (fun _ => .nil) work).bind_some ?_
      (flagged.report_stops made false) ?_
    · intro slept
      exact Heedful.pure (by rintro ⟨⟩)
    · rintro last told rfl ends
      exact ends

theorem classify_clear (error : E) (world : σ) :
    Clear ((driver.watched flag).classify error world :
      Trail ε σ (Deed S I O E T) Severity).deeds :=
  record_clear (fun _ => .nil) (fun _ => .single rfl) _ world

theorem log_clear (report : Report) (world : σ) :
    Clear ((driver.watched flag).log report world : Trail ε σ (Deed S I O E T) Unit).deeds :=
  record_clear (fun _ => .single rfl) (fun _ => .nil) _ world

theorem step_clear (schedule : Schedule (EStateM ε σ) I O) (state : schedule.State) (input : I)
    (world : σ) :
    Clear (schedule.watched.step state input world :
      Trail ε σ (Deed schedule.State I O E T) (Decision schedule.State O)).deeds :=
  record_clear (fun _ => .nil) (fun _ => .single rfl) _ world

theorem reported_joins (last told : List (Deed S I O E T)) (reported : Reported last)
    (unreported : Unreported told) : Reported (last ++ told) := by
  rw [unreported, List.append_nil]
  exact reported

theorem retryFrom_heedful (flagged : Flagged flag driver) (schedule : Schedule (EStateM ε σ) E O)
    (action : Action (EStateM ε σ) E T) (remaining made : Nat) (state : schedule.State) :
    Heedful flag .cancelled Reported ((driver.watched flag).retryFrom schedule.watched
      (action.watched flag) remaining made state) := by
  induction remaining generalizing made state with
  | zero =>
      simp only [Driver.retryFrom]
      refine (flagged.attempt_heedful (.called (made + 1)) (fun _ => rfl)
        (fun answer => answer.elim) made _).bind_some ?_ (pure_stops _) reported_joins
      intro result
      exact result.elim
  | succ remaining ih =>
      simp only [Driver.retryFrom]
      refine (flagged.attempt_heedful (.called (made + 1)) (fun _ => rfl)
        (fun _ => .single rfl) made _).bind_some ?_ (pure_stops _) reported_joins
      intro result
      cases result with
      | ok value =>
          by_cases later : 0 < made
          · simp only [later, ↓reduceIte]
            exact Heedful.clear_bind (log_clear _) fun _ => Heedful.pure (by rintro ⟨⟩)
          · simp only [later, ↓reduceIte]
            exact Heedful.pure (by rintro ⟨⟩)
      | error error =>
          refine Heedful.clear_bind (classify_clear error) ?_
          intro severity
          cases severity with
          | fatal =>
              exact Heedful.clear_bind (log_clear _) fun _ => Heedful.pure (by rintro ⟨⟩)
          | recoverable =>
              refine Heedful.clear_bind (step_clear schedule state error) ?_
              intro decision
              cases decision with
              | done output =>
                  exact Heedful.clear_bind (log_clear _) fun _ => Heedful.pure (by rintro ⟨⟩)
              | proceed output delay next =>
                  refine Heedful.clear_bind (log_clear _) fun _ => ?_
                  refine (flagged.wait_heedful (made + 1) delay).bind ?_ (pure_stops _)
                    reported_joins
                  intro slept other
                  cases slept with
                  | false => exact absurd rfl other
                  | true => exact ih (made + 1) next

theorem repeatFrom_heedful (flagged : Flagged flag driver) (schedule : Schedule (EStateM ε σ) I O)
    (action : Action (EStateM ε σ) E I) (remaining made : Nat) (state : schedule.State)
    (last : Option O) :
    Heedful flag .cancelled Reported ((driver.watched flag).repeatFrom schedule.watched
      (action.watched flag) remaining made state last) := by
  induction remaining generalizing made state last with
  | zero =>
      simp only [Driver.repeatFrom]
      refine (flagged.attempt_heedful (.called (made + 1)) (fun _ => rfl)
        (fun answer => answer.elim) made _).bind_some ?_ (pure_stops _) reported_joins
      intro result
      exact result.elim
  | succ remaining ih =>
      simp only [Driver.repeatFrom]
      refine (flagged.attempt_heedful (.called (made + 1)) (fun _ => rfl)
        (fun _ => .single rfl) made _).bind_some ?_ (pure_stops _) reported_joins
      intro result
      cases result with
      | error error =>
          refine Heedful.clear_bind (classify_clear error) ?_
          intro severity
          cases severity with
          | fatal =>
              exact Heedful.clear_bind (log_clear _) fun _ => Heedful.pure (by rintro ⟨⟩)
          | recoverable =>
              exact Heedful.clear_bind (log_clear _) fun _ => Heedful.pure (by rintro ⟨⟩)
      | ok input =>
          refine Heedful.clear_bind (step_clear schedule state input) ?_
          intro decision
          cases decision with
          | done output =>
              exact Heedful.clear_bind (log_clear _) fun _ => Heedful.pure (by rintro ⟨⟩)
          | proceed output delay next =>
              refine Heedful.clear_bind (log_clear _) fun _ => ?_
              refine (flagged.wait_heedful (made + 1) delay).bind ?_ (pure_stops _) reported_joins
              intro slept other
              cases slept with
              | false => exact absurd rfl other
              | true => exact ih (made + 1) next (some output)

end Flagged

def Deed.isFallback : Deed S I O E T → Bool
  | fellBack .. => true
  | _ => false

namespace Clear

variable {deeds : List (Deed S I O E T)}

theorem no_stop (clear : Clear deeds) : .checked true ∉ deeds := by
  intro member
  rcases clear.mem member rfl with active | enters
  · exact nomatch active
  · exact nomatch enters

theorem no_fallback (clear : Clear deeds) {deed : Deed S I O E T} (member : deed ∈ deeds) :
    deed.isFallback = false := by
  cases deed with
  | fellBack error last =>
      rcases clear.mem member rfl with active | enters
      · exact nomatch active
      · exact nomatch enters
  | _ => rfl

theorem guarded (clear : Clear deeds) : Guarded (fun deed => deed.shown?.isNone) deeds := by
  refine clear.mono ?_
  intro deed free
  cases deed with
  | called | polled => exact nomatch free
  | _ => rfl

end Clear

/-- The run of a driver heeds its token. Its action is called and its work polled right after looks
that found the token active, and a look that finds it cancelled ends the run there. A run is
cancelled by such a look only, so that no call, poll or fallback comes after it; it never falls
back, and it leaves the flag set. -/
structure HeedsToken (flag : σ → Bool) (plain : EStateM ε σ (Except (RunError E) α))
    (traced : Traced ε σ (Deed S I O E T) (Except (RunError E) α)) (world : σ) : Prop where
  faithful : plain world = (traced world).result
  entered : ∀ {before after : List (Deed S I O E T)} {deed : Deed S I O E T} {cancelled : Bool},
    (traced world).deeds = before ++ deed :: after → deed.shown? = some cancelled →
      cancelled = false ∧ before.getLast? = some (.checked false)
  heeded : ∀ {before after : List (Deed S I O E T)},
    (traced world).deeds = before ++ .checked true :: after →
      (traced world).outcome = .ok (.error .cancelled) ∧ Reported after
  honest : (traced world).outcome = .ok (.error .cancelled) →
    flag (traced world).world = true ∧
      (∃ before after, (traced world).deeds = before ++ .checked true :: after) ∧
      ∀ deed ∈ (traced world).deeds, deed.isFallback = false

/-- How runs that are not cancelled settle: with a fallback at most. -/
def Settles (traced : Traced ε σ (Deed S I O E T) (Except (RunError E) α)) : Prop :=
  ∀ world, (traced world).outcome ≠ .ok (.error .cancelled) ∧
    ∀ deed ∈ (traced world).deeds, deed.isFallback = true

theorem Settles.pure {result : Except (RunError E) α} (other : result ≠ .error .cancelled) :
    Settles (Pure.pure result : Traced ε σ (Deed S I O E T) (Except (RunError E) α)) := by
  intro world
  refine ⟨?_, nofun⟩
  intro same
  exact other (Except.ok.inj same)

theorem Settles.fallback {deed : Deed S I O E T} (falls : deed.isFallback = true)
    (fallback : EStateM ε σ A) :
    Settles (do return .ok (.inl (← record (fun _ => [deed]) (fun _ => []) fallback)) :
      Traced ε σ (Deed S I O E T) (Except (RunError E) (A ⊕ α))) := by
  intro world
  cases ran : fallback world with
  | ok value after =>
      have recorded := record_run_ok (fun _ => [deed]) (fun _ => []) ran
      rw [bind_run_ok (by rw [recorded]), recorded]
      refine ⟨nofun, ?_⟩
      simpa [pure_run] using falls
  | error fault after =>
      have recorded := record_run_error (fun _ => [deed]) (fun _ => []) ran
      rw [bind_run_error (by rw [recorded]), recorded]
      refine ⟨nofun, ?_⟩
      simpa using falls

namespace HeedsToken

variable {plain : EStateM ε σ (Except (RunError E) α)}

theorem of_goes {traced : Traced ε σ (Deed S I O E T) (Except (RunError E) α)} {world : σ}
    (faithful : plain world = (traced world).result) {first second : List (Deed S I O E T)}
    (deeds : (traced world).deeds = first ++ second) (clear : Clear first)
    (falls : ∀ deed ∈ second, deed.isFallback = true)
    (on : (traced world).outcome ≠ .ok (.error .cancelled)) :
    HeedsToken flag plain traced world where
  faithful := faithful
  entered split enters := by
    have last : Guarded (fun deed => deed.shown?.isNone) second := by
      refine .of_forall ?_
      intro deed member
      cases deed with
      | fellBack => rfl
      | _ => exact nomatch falls _ member
    exact (clear.guarded.append last).entered (fun _ => Option.isNone_iff_eq_none.mp)
      (deeds.symm.trans split) enters
  heeded {before after} split := by
    have member : Deed.checked true ∈ first ++ second := by
      rw [← deeds, split]
      exact List.mem_append_right before List.mem_cons_self
    rcases List.mem_append.mp member with early | late
    · exact absurd early clear.no_stop
    · exact nomatch falls _ late
  honest cancelled := absurd cancelled on

theorem of_stops {traced : Traced ε σ (Deed S I O E T) (Except (RunError E) α)} {world : σ}
    (faithful : plain world = (traced world).result) {before last : List (Deed S I O E T)}
    (deeds : (traced world).deeds = before ++ .checked true :: last) (clear : Clear before)
    (reported : Reported last) (set : flag (traced world).world = true)
    (stopped : (traced world).outcome = .ok (.error .cancelled)) :
    HeedsToken flag plain traced world := by
  obtain ⟨made, rfl⟩ := reported
  constructor
  · exact faithful
  · intro start rest deed cancelled split enters
    have guarded : Guarded (fun deed => deed.shown?.isNone)
        [.checked true, (.reported ⟨.cancelled, made⟩ : Deed S I O E T)] :=
      .free rfl (.free rfl .nil)
    exact (clear.guarded.append guarded).entered (fun _ => Option.isNone_iff_eq_none.mp)
      (deeds.symm.trans split) enters
  · intro start rest split
    have same := deeds.symm.trans split
    rw [List.append_cons_inj_of_notMem clear.no_stop (by simp)] at same
    obtain ⟨_, _, rfl⟩ := same
    exact ⟨stopped, made, rfl⟩
  · intro _
    refine ⟨set, ⟨before, _, deeds⟩, ?_⟩
    intro deed member
    rw [deeds] at member
    rcases List.mem_append.mp member with early | late
    · exact clear.no_fallback early
    · rcases List.mem_cons.mp late with rfl | late
      · rfl
      · rw [List.mem_singleton.mp late]
        rfl

theorem of_heedful {ending : Traced ε σ (Deed S I O E T) A} {stop : A}
    (heedful : Heedful flag stop Reported ending)
    {settle : A → Traced ε σ (Deed S I O E T) (Except (RunError E) α)}
    (cancels : settle stop = pure (.error .cancelled))
    (settles : ∀ value, value ≠ stop → Settles (settle value))
    (erased : (ending >>= settle).erase = plain) (world : σ) :
    HeedsToken flag plain (ending >>= settle) world := by
  have faithful : plain world = ((ending >>= settle) world).result := by
    rw [← erased]
    rfl
  cases heedful world with
  | goes clear on =>
      cases outcome : (ending world).outcome with
      | ok value =>
          have run := bind_run_ok outcome settle
          have other : value ≠ stop := fun same => on (outcome.trans (congrArg _ same))
          obtain ⟨settled, falls⟩ := settles value other (ending world).world
          exact of_goes faithful (by rw [run]) clear falls (by rwa [run])
      | error fault =>
          have run := bind_run_error outcome settle
          have deeds : ((ending >>= settle) world).deeds = (ending world).deeds ++ [] := by
            rw [run, List.append_nil]
          refine of_goes faithful deeds clear nofun ?_
          rw [run]
          exact nofun
  | @stops before last stopped set clear reported deeds =>
      have run := bind_run_ok stopped settle
      rw [cancels, pure_run, List.append_nil] at run
      exact of_stops faithful (by rw [run, deeds]) clear reported (by rwa [run]) (by rw [run])

theorem map {β : Type} {traced : Traced ε σ (Deed S I O E T) (Except (RunError E) α)} {world : σ}
    (heeds : HeedsToken flag plain traced world) {merged : EStateM ε σ (Except (RunError E) β)}
    (merge : α → β) (erased : (traced >>= fun result => pure (result.map merge)).erase = merged) :
    HeedsToken flag merged (traced >>= fun result => pure (result.map merge)) world := by
  let mapped := traced >>= fun result => pure (result.map merge)
  have kept : (mapped world).deeds = (traced world).deeds ∧
      (mapped world).world = (traced world).world ∧
      ((mapped world).outcome = .ok (.error .cancelled) ↔
        (traced world).outcome = .ok (.error .cancelled)) := by
    cases outcome : (traced world).outcome with
    | ok result =>
        have run := bind_run_ok outcome fun result =>
          (pure (result.map merge) : Traced ε σ (Deed S I O E T) (Except (RunError E) β))
        rw [pure_run, List.append_nil] at run
        simp only [mapped, run, true_and]
        cases result <;> simp [Except.map]
    | error fault =>
        have run := bind_run_error outcome fun result =>
          (pure (result.map merge) : Traced ε σ (Deed S I O E T) (Except (RunError E) β))
        simp only [mapped, run, reduceCtorEq, and_self]
  obtain ⟨deeds, after, cancelled⟩ := kept
  constructor
  · rw [← erased]
    rfl
  · intro start rest deed shown split enters
    exact heeds.entered (deeds.symm.trans split) enters
  · intro start rest split
    obtain ⟨stopped, reported⟩ := heeds.heeded (deeds.symm.trans split)
    exact ⟨cancelled.mpr stopped, reported⟩
  · intro stopped
    change flag (mapped world).world = true ∧ (∃ before rest, (mapped world).deeds = _) ∧
      ∀ deed ∈ (mapped world).deeds, _
    rw [deeds, after]
    exact heeds.honest (cancelled.mp stopped)

end HeedsToken

structure RepeatHeeds (flag : σ → Bool) (driver : Driver (EStateM ε σ) E)
    (schedule : Schedule (EStateM ε σ) I O) (action : Action (EStateM ε σ) E I) (world : σ) :
    Prop where
  under : HeedsToken flag (driver.repeatUnder schedule action)
    ((driver.watched flag).repeatUnder schedule.watched (action.watched flag)) world
  orElseEither : ∀ {A : Type} (fallback : E → Option O → EStateM ε σ A),
    HeedsToken flag (driver.repeatOrElseEither schedule action fallback)
      ((driver.watched flag).repeatOrElseEither schedule.watched (action.watched flag)
        (watchedFallback fallback)) world
  orElse : ∀ fallback : E → Option O → EStateM ε σ O,
    HeedsToken flag (driver.repeatOrElse schedule action fallback)
      ((driver.watched flag).repeatOrElse schedule.watched (action.watched flag)
        (watchedFallback fallback)) world

structure RetryHeeds (flag : σ → Bool) (driver : Driver (EStateM ε σ) E)
    (schedule : Schedule (EStateM ε σ) E O) (action : Action (EStateM ε σ) E T) (world : σ) :
    Prop where
  under : HeedsToken flag (driver.retryUnder schedule action)
    ((driver.watched flag).retryUnder schedule.watched (action.watched flag)) world
  orElseEither : ∀ {A : Type} (fallback : E → O → EStateM ε σ A),
    HeedsToken flag (driver.retryOrElseEither schedule action fallback)
      ((driver.watched flag).retryOrElseEither schedule.watched (action.watched flag)
        (watchedLastResort fallback)) world
  orElse : ∀ fallback : E → O → EStateM ε σ T,
    HeedsToken flag (driver.retryOrElse schedule action fallback)
      ((driver.watched flag).retryOrElse schedule.watched (action.watched flag)
        (watchedLastResort fallback)) world

namespace Flagged

variable {driver : Driver (EStateM ε σ) E}

theorem repeatOrElseEither_heeds (flagged : Flagged flag driver)
    (schedule : Schedule (EStateM ε σ) I O) (action : Action (EStateM ε σ) E I)
    (fallback : E → Option O → EStateM ε σ A) (world : σ) :
    HeedsToken flag (driver.repeatOrElseEither schedule action fallback)
      ((driver.watched flag).repeatOrElseEither schedule.watched (action.watched flag)
        (watchedFallback fallback)) world := by
  refine HeedsToken.of_heedful (flagged.repeatFrom_heedful schedule action _ 0 _ none) rfl ?_
    (Driver.erase_repeatOrElseEither flag driver schedule action fallback) world
  intro finish other
  cases finish with
  | cancelled => exact absurd rfl other
  | fatal error => exact Settles.pure nofun
  | failed error last => exact Settles.fallback rfl _
  | completed output => exact Settles.pure nofun

theorem retryOrElseEither_heeds (flagged : Flagged flag driver)
    (schedule : Schedule (EStateM ε σ) E O) (action : Action (EStateM ε σ) E T)
    (fallback : E → O → EStateM ε σ A) (world : σ) :
    HeedsToken flag (driver.retryOrElseEither schedule action fallback)
      ((driver.watched flag).retryOrElseEither schedule.watched (action.watched flag)
        (watchedLastResort fallback)) world := by
  refine HeedsToken.of_heedful (flagged.retryFrom_heedful schedule action _ 0 _) rfl ?_
    (Driver.erase_retryOrElseEither flag driver schedule action fallback) world
  intro finish other
  cases finish with
  | cancelled => exact absurd rfl other
  | fatal error => exact Settles.pure nofun
  | exhausted attempts error output => exact Settles.fallback rfl _
  | succeeded value => exact Settles.pure nofun

theorem repeat_heeds (flagged : Flagged flag driver) (schedule : Schedule (EStateM ε σ) I O)
    (action : Action (EStateM ε σ) E I) (world : σ) :
    RepeatHeeds flag driver schedule action world where
  under := by
    refine HeedsToken.of_heedful (flagged.repeatFrom_heedful schedule action _ 0 _ none) rfl ?_
      (Driver.erase_repeatUnder flag driver schedule action) world
    intro finish other
    cases finish with
    | cancelled => exact absurd rfl other
    | _ => exact Settles.pure nofun
  orElseEither fallback := flagged.repeatOrElseEither_heeds schedule action fallback world
  orElse fallback :=
    (flagged.repeatOrElseEither_heeds schedule action fallback world).map Driver.merge
      (Driver.erase_repeatOrElse flag driver schedule action fallback)

theorem retry_heeds (flagged : Flagged flag driver) (schedule : Schedule (EStateM ε σ) E O)
    (action : Action (EStateM ε σ) E T) (world : σ) :
    RetryHeeds flag driver schedule action world where
  under := by
    refine HeedsToken.of_heedful (flagged.retryFrom_heedful schedule action _ 0 _) rfl ?_
      (Driver.erase_retryUnder flag driver schedule action) world
    intro finish other
    cases finish with
    | cancelled => exact absurd rfl other
    | _ => exact Settles.pure nofun
  orElseEither fallback := flagged.retryOrElseEither_heeds schedule action fallback world
  orElse fallback :=
    (flagged.retryOrElseEither_heeds schedule action fallback world).map Driver.merge
      (Driver.erase_retryOrElse flag driver schedule action fallback)

end Flagged

/-- Runs are safe under cancellation, whatever sets the flag and whenever it does. -/
theorem runs_heed_token {driver : Driver (EStateM ε σ) E} (flagged : Flagged flag driver)
    (world : σ) :
    (∀ {I O : Type} (schedule : Schedule (EStateM ε σ) I O) (action : Action (EStateM ε σ) E I),
      RepeatHeeds flag driver schedule action world) ∧
    ∀ {O T : Type} (schedule : Schedule (EStateM ε σ) E O) (action : Action (EStateM ε σ) E T),
      RetryHeeds flag driver schedule action world :=
  ⟨fun schedule action => flagged.repeat_heeds schedule action world,
    fun schedule action => flagged.retry_heeds schedule action world⟩

theorem Scenario.flagged (sleeper : Sleeper) (token : Token) (fatalIf : Option Condition)
    (horizon : Nat) :
    Flagged (fun session => token.isCancelled session.cancelled)
      (makeDriver sleeper token fatalIf horizon) :=
  ⟨fun _ => rfl, fun _ _ => ⟨_, rfl, id⟩⟩

/-- The first poll of the attempt cancels and gives way, so that the attempt is not polled again. -/
theorem runs_heed_token_polled :
    RetryHeeds (fun session => (Token.root 0).isCancelled session.cancelled)
      (Scenario.makeDriver .instant (.root 0) none 1) (.recurs 3)
      (scriptedAction [{ result := .error .null, cancels := some .onPoll, yields := 1 }] (.root 0))
      {} :=
  (runs_heed_token (Scenario.flagged .instant (.root 0) none 1) {}).2 _ _

end Cadence
