import Cadence.Proofs.CalmSession
import Cadence.Proofs.Rounds
import Cadence.Schedule.Primitive

namespace Cadence

open Traced

variable {ε σ S E O T A : Type}

def retryRounds : (number : Nat) → (state : S) → List (Round S E O) → List (Deed S E O E T)
  | _, _, [] => []
  | number, state, round :: rounds =>
      [.called number false, .finished (.error round.input),
        .classified round.input .recoverable, .stepped state round.input round.decision] ++
        round.waited ++ retryRounds (number + 1) round.next rounds

theorem retryRounds_cons (number : Nat) (state : S) (round : Round S E O)
    (rounds : List (Round S E O)) :
    (retryRounds number state (round :: rounds) : List (Deed S E O E T)) =
      retryRounds number state [round] ++ retryRounds (number + 1) round.next rounds := by
  simp only [retryRounds, List.append_nil]

inductive RetryLast (E O T : Type) where
  | succeeded (value : T)
  | fatal (error : E)
  | exhausted (error : E) (output : O)

namespace RetryLast

def deeds (number : Nat) (state : S) : RetryLast E O T → List (Deed S E O E T)
  | succeeded value => [.called number false, .finished (.ok value)]
  | fatal error =>
      [.called number false, .finished (.error error), .classified error .fatal]
  | exhausted error output =>
      [.called number false, .finished (.error error), .classified error .recoverable,
        .stepped state error (.done output)]

def Fits (schedule : Schedule (EStateM ε σ) E O) (state : schedule.State) :
    RetryLast E O T → Prop
  | exhausted error output => schedule.Answers state error (.done output)
  | _ => True

def toEnd (attempts : Nat) : RetryLast E O T → RetryEnd E O T
  | succeeded value => .succeeded value
  | fatal error => .fatal error
  | exhausted error output => .exhausted attempts error output

def answer (attempts : Nat) : RetryLast E O T → Except (RunError E) T
  | succeeded value => .ok value
  | fatal error => .error (.fatal error)
  | exhausted error _ => .error (.exhausted attempts error)

/-- What a retry with a fallback comes to; only a schedule that is done calls it. -/
def settle (fallback : E → O → EStateM ε σ A) :
    RetryLast E O T → EStateM ε σ (Except (RunError E) (A ⊕ T))
  | succeeded value => pure (.ok (.inr value))
  | fatal error => pure (.error (.fatal error))
  | exhausted error output => do return .ok (.inl (← fallback error output))

def fallbackDeeds : RetryLast E O T → List (Deed S E O E T)
  | exhausted error output => [.fellBack error (some output)]
  | succeeded _ | fatal _ => []

end RetryLast

namespace Undisturbed

variable {flag : σ → Bool} {calm : σ → Prop} {driver : Driver (EStateM ε σ) E}
  {action : Action (EStateM ε σ) E T} {schedule : Schedule (EStateM ε σ) E O}

theorem success_deals (undisturbed : Undisturbed flag calm driver action) {world : σ}
    (peace : calm world) (made : Nat) (value : T) :
    ∃ after, calm after ∧
      Deals (do
          if 0 < made then (driver.watched flag).log ⟨.retrySucceeded, made + 1⟩
          return .succeeded value : Traced ε σ (Deed S E O E T) (RetryEnd E O T))
        world (.succeeded value) after [] := by
  by_cases later : 0 < made
  · simp only [later, ↓reduceIte]
    exact undisturbed.conclude_deals peace ⟨.retrySucceeded, made + 1⟩ (RetryEnd.succeeded value)
  · refine ⟨world, peace, ?_⟩
    rw [if_neg later]
    exact Leads.pure

theorem retry_attempt (undisturbed : Undisturbed flag calm driver action)
    (steady : schedule.Steady calm) (remaining : Nat) {made : Nat} (state : schedule.State)
    {world : σ} (peace : calm world) (scripted : made < action.calls) :
    (∃ (last : RetryLast E O T) (after : σ), calm after ∧ last.Fits schedule state ∧
      Deals ((driver.watched flag).retryFrom schedule.watched (action.watched flag) (remaining + 1)
          made state) world (last.toEnd (made + 1)) after (last.deeds (made + 1) state)) ∨
    ∃ (round : Round schedule.State E O) (after : σ), calm after ∧
      schedule.Answers state round.input round.decision ∧
      Reaches Deed.isDealing
        ((driver.watched flag).retryFrom schedule.watched (action.watched flag) (remaining + 1)
          made state) world
        ((driver.watched flag).retryFrom schedule.watched (action.watched flag) remaining
          (made + 1) round.next) after (retryRounds (made + 1) state [round]) := by
  obtain ⟨result, answered, calmAnswered, attempted⟩ :=
    undisturbed.attempt_deals (S := schedule.State) (I := E) (O := O) peace scripted
  simp only [Driver.retryFrom]
  match result with
  | .ok value =>
      obtain ⟨after, calmAfter, succeeds⟩ :=
        undisturbed.success_deals (S := schedule.State) (O := O) calmAnswered made value
      exact Or.inl ⟨.succeeded value, after, calmAfter, trivial, attempted.bind succeeds⟩
  | .error error =>
      obtain ⟨severity, classified, calmClassified, classifies⟩ :=
        undisturbed.classify_deals (S := schedule.State) (I := E) (O := O) (T := T)
          calmAnswered error
      cases severity with
      | fatal =>
          obtain ⟨after, calmAfter, concludes⟩ :=
            undisturbed.conclude_deals (S := schedule.State) (I := E) (O := O) (T := T)
              calmClassified ⟨.retryFatal, made + 1⟩ (.fatal error : RetryEnd E O T)
          refine Or.inl ⟨.fatal error, after, calmAfter, trivial, ?_⟩
          exact attempted.bind (classifies.bind concludes)
      | recoverable =>
          obtain ⟨decision, decided, calmDecided, answers, steps⟩ :=
            Schedule.step_deals (E := E) (T := T) steady calmClassified state error
          cases decision with
          | done output =>
              obtain ⟨after, calmAfter, concludes⟩ :=
                undisturbed.conclude_deals (S := schedule.State) (I := E) (O := O) (T := T)
                  calmDecided ⟨.retryExhausted, made + 1⟩
                  (.exhausted (made + 1) error output : RetryEnd E O T)
              refine Or.inl ⟨.exhausted error output, after, calmAfter, answers, ?_⟩
              exact attempted.bind (classifies.bind (steps.bind concludes))
          | proceed output delay next =>
              obtain ⟨after, calmAfter, goesOn⟩ := undisturbed.go_on_deals calmDecided
                ⟨.retryProceeding delay, made + 1⟩ (made + 1) delay
                ((driver.watched flag).retryFrom schedule.watched (action.watched flag) remaining
                  (made + 1) next) (return .cancelled)
              refine Or.inr ⟨⟨error, output, delay, next⟩, after, calmAfter, answers, ?_⟩
              rw [retryRounds, retryRounds, List.append_nil]
              exact (attempted.reaches _).trans
                ((classifies.reaches _).trans ((steps.reaches _).trans goesOn))

theorem retryFrom_rounds (undisturbed : Undisturbed flag calm driver action)
    (steady : schedule.Steady calm) (remaining made : Nat) (state : schedule.State) {world : σ}
    (peace : calm world) (scripted : made + remaining = action.calls) :
    ∃ rounds final, schedule.Follows state rounds final ∧
      ((∃ (last : RetryLast E O T) (after : σ), rounds.length < remaining ∧ calm after ∧
        last.Fits schedule final ∧
        Deals ((driver.watched flag).retryFrom schedule.watched (action.watched flag) remaining
            made state) world (last.toEnd (made + rounds.length + 1)) after
          (retryRounds (made + 1) state rounds ++
            last.deeds (made + rounds.length + 1) final)) ∨
      (rounds.length = remaining ∧
        retryRounds (made + 1) state rounds <+:
          (((driver.watched flag).retryFrom schedule.watched (action.watched flag) remaining made
            state) world).deeds.filter Deed.isDealing)) := by
  induction remaining generalizing made state world with
  | zero => exact ⟨[], state, .nil state, Or.inr ⟨rfl, List.nil_prefix⟩⟩
  | succ remaining ih =>
      have callable : made < action.calls := by omega
      rcases undisturbed.retry_attempt steady remaining state peace callable with
        ⟨last, after, calmAfter, fits, ends⟩ | ⟨round, middle, calmMiddle, answers, reached⟩
      · exact ⟨[], state, .nil state, Or.inl ⟨last, after, by simp, calmAfter, fits, ends⟩⟩
      · obtain ⟨rounds, final, follows, finish⟩ := ih (made + 1) round.next calmMiddle (by omega)
        refine ⟨round :: rounds, final, .cons answers follows, ?_⟩
        have number : made + (round :: rounds).length + 1 = made + 1 + rounds.length + 1 := by
          simp only [List.length_cons]
          omega
        rw [number, retryRounds_cons]
        rcases finish with ⟨last, after, fewer, calmAfter, fits, ends⟩ | ⟨all, shown⟩
        · refine Or.inl ⟨last, after, by simpa using fewer, calmAfter, fits, ?_⟩
          rw [List.append_assoc]
          exact reached.leads ends
        · refine Or.inr ⟨by simpa using all, ?_⟩
          rw [reached.deeds]
          exact (List.prefix_append_right_inj _).mpr shown

theorem retry_settles {fallback : E → O → EStateM ε σ A}
    (mild : ∀ error output, Calmly calm (fallback error output)) (last : RetryLast E O T)
    {world after : σ} (peace : calm after) {attempts : Nat}
    {told : List (Deed schedule.State E O E T)}
    (ends : Deals ((driver.watched flag).retryEnd schedule.watched (action.watched flag)) world
      (last.toEnd attempts) after told) :
    ∃ result closing, last.settle fallback after = .ok result closing ∧
      Deals ((driver.watched flag).retryOrElseEither schedule.watched (action.watched flag)
        (watchedLastResort fallback)) world result closing (told ++ last.fallbackDeeds) := by
  cases last with
  | succeeded value =>
      refine ⟨.ok (.inr value), after, rfl, ?_⟩
      rw [RetryLast.fallbackDeeds, List.append_nil]
      exact ends.bind_pure rfl
  | fatal error =>
      refine ⟨.error (.fatal error), after, rfl, ?_⟩
      rw [RetryLast.fallbackDeeds, List.append_nil]
      exact ends.bind_pure rfl
  | exhausted error output =>
      obtain ⟨value, closing, ran, _⟩ := mild error output after peace
      have resorted : Deals (watchedLastResort fallback error output :
          Traced ε σ (Deed schedule.State E O E T) A) after value closing
          [.fellBack error (some output)] := Leads.record ran
      refine ⟨.ok (.inl value), closing, ?_, ends.bind (resorted.bind_pure rfl)⟩
      change EStateM.bind (fallback error output) _ after = _
      rw [EStateM.bind, ran]
      rfl

end Undisturbed

/-- A retry of `schedule` that goes through `rounds` and comes to its end `last`, in each of the
three ways: without fallback, and with one that may answer with another type or must not. -/
structure RetryEndsBy (flag : σ → Bool) (calm : σ → Prop) (driver : Driver (EStateM ε σ) E)
    (schedule : Schedule (EStateM ε σ) E O) (action : Action (EStateM ε σ) E T) (world : σ)
    (rounds : List (Round schedule.State E O)) (last : RetryLast E O T)
    (told : List (Deed schedule.State E O E T)) (after : σ) : Prop where
  under : Shows (driver.retryUnder schedule action)
    ((driver.watched flag).retryUnder schedule.watched (action.watched flag)) world
    (last.answer (rounds.length + 1)) after told
  orElseEither : ∀ {A : Type} (fallback : E → O → EStateM ε σ A),
    (∀ error output, Calmly calm (fallback error output)) →
      ∃ result closing, last.settle fallback after = .ok result closing ∧
        Shows (driver.retryOrElseEither schedule action fallback)
          ((driver.watched flag).retryOrElseEither schedule.watched (action.watched flag)
            (watchedLastResort fallback)) world result closing (told ++ last.fallbackDeeds)
  orElse : ∀ fallback : E → O → EStateM ε σ T,
    (∀ error output, Calmly calm (fallback error output)) →
      ∃ result closing, last.settle fallback after = .ok result closing ∧
        Shows (driver.retryOrElse schedule action fallback)
          ((driver.watched flag).retryOrElse schedule.watched (action.watched flag)
            (watchedLastResort fallback)) world (result.map Driver.merge) closing
          (told ++ last.fallbackDeeds)

variable {flag : σ → Bool} {calm : σ → Prop} {driver : Driver (EStateM ε σ) E}
  {action : Action (EStateM ε σ) E T} {schedule : Schedule (EStateM ε σ) E O}

theorem RetryEndsBy.of_deals {world after : σ} {rounds : List (Round schedule.State E O)}
    {last : RetryLast E O T} {told : List (Deed schedule.State E O E T)} (peace : calm after)
    (ends : Deals ((driver.watched flag).retryEnd schedule.watched (action.watched flag)) world
      (last.toEnd (rounds.length + 1)) after told) :
    RetryEndsBy flag calm driver schedule action world rounds last told after where
  under := by
    refine Shows.of_erase (Driver.erase_retryUnder flag driver schedule action) ?_
    cases last <;> exact ends.bind_pure rfl
  orElseEither fallback mild := by
    obtain ⟨result, closing, settled, dealt⟩ := Undisturbed.retry_settles mild last peace ends
    refine ⟨result, closing, settled, Shows.of_erase ?_ dealt⟩
    exact Driver.erase_retryOrElseEither flag driver schedule action fallback
  orElse fallback mild := by
    obtain ⟨result, closing, settled, dealt⟩ := Undisturbed.retry_settles mild last peace ends
    refine ⟨result, closing, settled, Shows.of_erase ?_ (dealt.bind_pure rfl)⟩
    exact Driver.erase_retryOrElse flag driver schedule action fallback

/-- A retry goes through rounds of its schedule, and one attempt more ends it: a first success, a
fatal error, or an error on which the schedule is done. Unless an attempt among those of the action
ends it, it makes them all. -/
def RetryFollows (flag : σ → Bool) (calm : σ → Prop) (driver : Driver (EStateM ε σ) E)
    (schedule : Schedule (EStateM ε σ) E O) (action : Action (EStateM ε σ) E T) (world : σ) :
    Prop :=
  ∃ rounds final, schedule.Follows schedule.start rounds final ∧
    ((∃ (last : RetryLast E O T) (after : σ), rounds.length < action.calls ∧
      last.Fits schedule final ∧
      RetryEndsBy flag calm driver schedule action world rounds last
        (retryRounds 1 schedule.start rounds ++ last.deeds (rounds.length + 1) final) after) ∨
    (rounds.length = action.calls ∧
      retryRounds 1 schedule.start rounds <+:
        ((driver.watched flag).retryEnd schedule.watched (action.watched flag) world).deeds.filter
          Deed.isDealing))

theorem retry_refines_schedule (undisturbed : Undisturbed flag calm driver action)
    (steady : schedule.Steady calm) {world : σ} (peace : calm world) :
    RetryFollows flag calm driver schedule action world := by
  obtain ⟨rounds, final, follows, finish⟩ :=
    undisturbed.retryFrom_rounds steady action.calls 0 schedule.start peace (Nat.zero_add _)
  refine ⟨rounds, final, follows, ?_⟩
  rw [Nat.zero_add rounds.length] at finish
  rcases finish with ⟨last, after, fewer, calmAfter, fits, ends⟩ | unended
  · exact Or.inl ⟨last, after, fewer, fits, RetryEndsBy.of_deals calmAfter ends⟩
  · exact Or.inr unended

/-- The action fails once, gives way twice, and then succeeds; a second is waited in between. -/
theorem retry_refines_schedule_spaced :
    let driver := Scenario.makeDriver .tracking (.root 0) none 1
    let action := scriptedAction
      [{ result := .error .null }, { result := .ok .null, yields := 2 }] (.root 0)
    RetryFollows (fun session => (Token.root 0).isCancelled session.cancelled)
        (CalmSession (.root 0) 1) driver (.spaced (.seconds 1)) action {} ∧
      ∃ session, driver.retryUnder (.spaced (.seconds 1)) action {} = .ok (.ok .null) session ∧
        session.log.waits = [.seconds 1] := by
  intro driver action
  have plain : ∀ attempt ∈ [({ result := .error .null } : Attempt),
      { result := .ok .null, yields := 2 }], attempt.Plain := by decide
  have undisturbed : Undisturbed (fun session => (Token.root 0).isCancelled session.cancelled)
      (CalmSession (.root 0) 1) driver action := CalmSession.undisturbed rfl none plain
  constructor
  · apply retry_refines_schedule undisturbed (Schedule.steady_of_pure fun _ _ => rfl)
    exact ⟨rfl, rfl, Nat.one_pos⟩
  · exact ⟨_, rfl, rfl⟩

end Cadence
