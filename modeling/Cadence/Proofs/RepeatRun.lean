import Cadence.Proofs.CalmSession
import Cadence.Proofs.Rounds
import Cadence.Schedule.Primitive

namespace Cadence

open Traced

variable {ε σ S I O E A : Type}

def repeatRounds : (number : Nat) → (state : S) → List (Round S I O) → List (Deed S I O E I)
  | _, _, [] => []
  | number, state, round :: rounds =>
      [.called number false, .finished (.ok round.input),
        .stepped state round.input round.decision] ++
        round.waited ++ repeatRounds (number + 1) round.next rounds

theorem repeatRounds_cons (number : Nat) (state : S) (round : Round S I O)
    (rounds : List (Round S I O)) :
    (repeatRounds number state (round :: rounds) : List (Deed S I O E I)) =
      repeatRounds number state [round] ++ repeatRounds (number + 1) round.next rounds := by
  simp only [repeatRounds, List.append_nil]

/-- What a failure after the rounds is met with, `before` being what it would be met with before
them. -/
def lastOutput (before : Option O) (rounds : List (Round S I O)) : Option O :=
  (rounds.getLast?.map (·.output)).or before

theorem lastOutput_cons (before : Option O) (round : Round S I O) (rounds : List (Round S I O)) :
    lastOutput before (round :: rounds) = lastOutput (some round.output) rounds := by
  rw [lastOutput, lastOutput, List.getLast?_cons]
  cases rounds.getLast? <;> rfl

inductive RepeatLast (E I O : Type) where
  | completed (input : I) (output : O)
  | fatal (error : E)
  | failed (error : E)

namespace RepeatLast

def deeds (number : Nat) (state : S) : RepeatLast E I O → List (Deed S I O E I)
  | completed input output =>
      [.called number false, .finished (.ok input), .stepped state input (.done output)]
  | fatal error =>
      [.called number false, .finished (.error error), .classified error .fatal]
  | failed error =>
      [.called number false, .finished (.error error), .classified error .recoverable]

def Fits (schedule : Schedule (EStateM ε σ) I O) (state : schedule.State) :
    RepeatLast E I O → Prop
  | completed input output => schedule.Answers state input (.done output)
  | _ => True

def toEnd (last : Option O) : RepeatLast E I O → RepeatEnd E O
  | completed _ output => .completed output
  | fatal error => .fatal error
  | failed error => .failed error last

def answer : RepeatLast E I O → Except (RunError E) O
  | completed _ output => .ok output
  | fatal error => .error (.fatal error)
  | failed error => .error (.inner error)

/-- What a repeat with a fallback comes to; only a failure calls it. -/
def settle (fallback : E → Option O → EStateM ε σ A) (last : Option O) :
    RepeatLast E I O → EStateM ε σ (Except (RunError E) (A ⊕ O))
  | completed _ output => pure (.ok (.inr output))
  | fatal error => pure (.error (.fatal error))
  | failed error => do return .ok (.inl (← fallback error last))

def fallbackDeeds (last : Option O) : RepeatLast E I O → List (Deed S I O E I)
  | failed error => [.fellBack error last]
  | completed .. | fatal _ => []

end RepeatLast

namespace Undisturbed

variable {flag : σ → Bool} {calm : σ → Prop} {driver : Driver (EStateM ε σ) E}
  {action : Action (EStateM ε σ) E I} {schedule : Schedule (EStateM ε σ) I O}

theorem repeat_attempt (undisturbed : Undisturbed flag calm driver action)
    (steady : schedule.Steady calm) (remaining : Nat) {made : Nat} (state : schedule.State)
    (before : Option O) {world : σ} (peace : calm world) (scripted : made < action.calls) :
    (∃ (last : RepeatLast E I O) (after : σ), calm after ∧ last.Fits schedule state ∧
      Deals ((driver.watched flag).repeatFrom schedule.watched (action.watched flag) (remaining + 1)
          made state before) world (last.toEnd before) after (last.deeds (made + 1) state)) ∨
    ∃ (round : Round schedule.State I O) (after : σ), calm after ∧
      schedule.Answers state round.input round.decision ∧
      Reaches Deed.isDealing
        ((driver.watched flag).repeatFrom schedule.watched (action.watched flag) (remaining + 1)
          made state before) world
        ((driver.watched flag).repeatFrom schedule.watched (action.watched flag) remaining
          (made + 1) round.next (some round.output)) after
        (repeatRounds (made + 1) state [round]) := by
  obtain ⟨result, answered, calmAnswered, attempted⟩ :=
    undisturbed.attempt_deals (S := schedule.State) (I := I) (O := O) peace scripted
  simp only [Driver.repeatFrom]
  match result with
  | .error error =>
      obtain ⟨severity, classified, calmClassified, classifies⟩ :=
        undisturbed.classify_deals (S := schedule.State) (I := I) (O := O) (T := I)
          calmAnswered error
      cases severity with
      | fatal =>
          obtain ⟨after, calmAfter, concludes⟩ :=
            undisturbed.conclude_deals (S := schedule.State) (I := I) (O := O) (T := I)
              calmClassified ⟨.repeatFatal, made + 1⟩ (.fatal error : RepeatEnd E O)
          refine Or.inl ⟨.fatal error, after, calmAfter, trivial, ?_⟩
          exact attempted.bind (classifies.bind concludes)
      | recoverable =>
          obtain ⟨after, calmAfter, concludes⟩ :=
            undisturbed.conclude_deals (S := schedule.State) (I := I) (O := O) (T := I)
              calmClassified ⟨.repeatFailed, made + 1⟩ (.failed error before : RepeatEnd E O)
          refine Or.inl ⟨.failed error, after, calmAfter, trivial, ?_⟩
          exact attempted.bind (classifies.bind concludes)
  | .ok input =>
      obtain ⟨decision, decided, calmDecided, answers, steps⟩ :=
        Schedule.step_deals (E := E) (T := I) steady calmAnswered state input
      cases decision with
      | done output =>
          obtain ⟨after, calmAfter, concludes⟩ :=
            undisturbed.conclude_deals (S := schedule.State) (I := I) (O := O) (T := I)
              calmDecided ⟨.repeatDone, made + 1⟩ (.completed output : RepeatEnd E O)
          refine Or.inl ⟨.completed input output, after, calmAfter, answers, ?_⟩
          exact attempted.bind (steps.bind concludes)
      | proceed output delay next =>
          obtain ⟨after, calmAfter, goesOn⟩ := undisturbed.go_on_deals calmDecided
            ⟨.repeatProceeding delay, made + 1⟩ (made + 1) delay
            ((driver.watched flag).repeatFrom schedule.watched (action.watched flag) remaining
              (made + 1) next (some output)) (return .cancelled)
          refine Or.inr ⟨⟨input, output, delay, next⟩, after, calmAfter, answers, ?_⟩
          rw [repeatRounds, repeatRounds, List.append_nil]
          exact (attempted.reaches _).trans ((steps.reaches _).trans goesOn)

theorem repeatFrom_rounds (undisturbed : Undisturbed flag calm driver action)
    (steady : schedule.Steady calm) (remaining made : Nat) (state : schedule.State)
    (before : Option O) {world : σ} (peace : calm world)
    (scripted : made + remaining = action.calls) :
    ∃ rounds final, schedule.Follows state rounds final ∧
      ((∃ (last : RepeatLast E I O) (after : σ), rounds.length < remaining ∧ calm after ∧
        last.Fits schedule final ∧
        Deals ((driver.watched flag).repeatFrom schedule.watched (action.watched flag) remaining
            made state before) world (last.toEnd (lastOutput before rounds)) after
          (repeatRounds (made + 1) state rounds ++
            last.deeds (made + rounds.length + 1) final)) ∨
      (rounds.length = remaining ∧
        repeatRounds (made + 1) state rounds <+:
          (((driver.watched flag).repeatFrom schedule.watched (action.watched flag) remaining made
            state before) world).deeds.filter Deed.isDealing)) := by
  induction remaining generalizing made state before world with
  | zero => exact ⟨[], state, .nil state, Or.inr ⟨rfl, List.nil_prefix⟩⟩
  | succ remaining ih =>
      have callable : made < action.calls := by omega
      rcases undisturbed.repeat_attempt steady remaining state before peace callable with
        ⟨last, after, calmAfter, fits, ends⟩ | ⟨round, middle, calmMiddle, answers, reached⟩
      · exact ⟨[], state, .nil state, Or.inl ⟨last, after, by simp, calmAfter, fits, ends⟩⟩
      · obtain ⟨rounds, final, follows, finish⟩ :=
          ih (made + 1) round.next (some round.output) calmMiddle (by omega)
        refine ⟨round :: rounds, final, .cons answers follows, ?_⟩
        have number : made + (round :: rounds).length + 1 = made + 1 + rounds.length + 1 := by
          simp only [List.length_cons]
          omega
        rw [number, repeatRounds_cons, lastOutput_cons]
        rcases finish with ⟨last, after, fewer, calmAfter, fits, ends⟩ | ⟨all, shown⟩
        · refine Or.inl ⟨last, after, by simpa using fewer, calmAfter, fits, ?_⟩
          rw [List.append_assoc]
          exact reached.leads ends
        · refine Or.inr ⟨by simpa using all, ?_⟩
          rw [reached.deeds]
          exact (List.prefix_append_right_inj _).mpr shown

theorem repeat_settles {fallback : E → Option O → EStateM ε σ A}
    (mild : ∀ error output, Calmly calm (fallback error output)) (last : RepeatLast E I O)
    {world after : σ} (peace : calm after) {output : Option O}
    {told : List (Deed schedule.State I O E I)}
    (ends : Deals ((driver.watched flag).repeatEnd schedule.watched (action.watched flag)) world
      (last.toEnd output) after told) :
    ∃ result closing, last.settle fallback output after = .ok result closing ∧
      Deals ((driver.watched flag).repeatOrElseEither schedule.watched (action.watched flag)
        (watchedFallback fallback)) world result closing (told ++ last.fallbackDeeds output) := by
  cases last with
  | completed input value =>
      refine ⟨.ok (.inr value), after, rfl, ?_⟩
      rw [RepeatLast.fallbackDeeds, List.append_nil]
      exact ends.bind_pure rfl
  | fatal error =>
      refine ⟨.error (.fatal error), after, rfl, ?_⟩
      rw [RepeatLast.fallbackDeeds, List.append_nil]
      exact ends.bind_pure rfl
  | failed error =>
      obtain ⟨value, closing, ran, _⟩ := mild error output after peace
      have fellBack : Deals (watchedFallback fallback error output :
          Traced ε σ (Deed schedule.State I O E I) A) after value closing
          [.fellBack error output] := Leads.record ran
      refine ⟨.ok (.inl value), closing, ?_, ends.bind (fellBack.bind_pure rfl)⟩
      change EStateM.bind (fallback error output) _ after = _
      rw [EStateM.bind, ran]
      rfl

end Undisturbed

/-- A repeat of `schedule` that goes through `rounds` and comes to its end `last`, in each of the
three ways: without fallback, with one that answers on its own side, and with one whose answer
stands for an output. -/
structure RepeatEndsBy (flag : σ → Bool) (calm : σ → Prop) (driver : Driver (EStateM ε σ) E)
    (schedule : Schedule (EStateM ε σ) I O) (action : Action (EStateM ε σ) E I) (world : σ)
    (rounds : List (Round schedule.State I O)) (last : RepeatLast E I O)
    (told : List (Deed schedule.State I O E I)) (after : σ) : Prop where
  under : Shows (driver.repeatUnder schedule action)
    ((driver.watched flag).repeatUnder schedule.watched (action.watched flag)) world
    last.answer after told
  orElseEither : ∀ {A : Type} (fallback : E → Option O → EStateM ε σ A),
    (∀ error output, Calmly calm (fallback error output)) →
      ∃ result closing, last.settle fallback (lastOutput none rounds) after = .ok result closing ∧
        Shows (driver.repeatOrElseEither schedule action fallback)
          ((driver.watched flag).repeatOrElseEither schedule.watched (action.watched flag)
            (watchedFallback fallback)) world result closing
          (told ++ last.fallbackDeeds (lastOutput none rounds))
  orElse : ∀ fallback : E → Option O → EStateM ε σ O,
    (∀ error output, Calmly calm (fallback error output)) →
      ∃ result closing, last.settle fallback (lastOutput none rounds) after = .ok result closing ∧
        Shows (driver.repeatOrElse schedule action fallback)
          ((driver.watched flag).repeatOrElse schedule.watched (action.watched flag)
            (watchedFallback fallback)) world (result.map Driver.merge) closing
          (told ++ last.fallbackDeeds (lastOutput none rounds))

variable {flag : σ → Bool} {calm : σ → Prop} {driver : Driver (EStateM ε σ) E}
  {action : Action (EStateM ε σ) E I} {schedule : Schedule (EStateM ε σ) I O}

theorem RepeatEndsBy.of_deals {world after : σ} {rounds : List (Round schedule.State I O)}
    {last : RepeatLast E I O} {told : List (Deed schedule.State I O E I)} (peace : calm after)
    (ends : Deals ((driver.watched flag).repeatEnd schedule.watched (action.watched flag)) world
      (last.toEnd (lastOutput none rounds)) after told) :
    RepeatEndsBy flag calm driver schedule action world rounds last told after where
  under := by
    refine Shows.of_erase (Driver.erase_repeatUnder flag driver schedule action) ?_
    cases last <;> exact ends.bind_pure rfl
  orElseEither fallback mild := by
    obtain ⟨result, closing, settled, dealt⟩ := Undisturbed.repeat_settles mild last peace ends
    refine ⟨result, closing, settled, Shows.of_erase ?_ dealt⟩
    exact Driver.erase_repeatOrElseEither flag driver schedule action fallback
  orElse fallback mild := by
    obtain ⟨result, closing, settled, dealt⟩ := Undisturbed.repeat_settles mild last peace ends
    refine ⟨result, closing, settled, Shows.of_erase ?_ (dealt.bind_pure rfl)⟩
    exact Driver.erase_repeatOrElse flag driver schedule action fallback

/-- A repeat goes through rounds of its schedule, and one attempt more ends it: a result on which
the schedule is done, a fatal error, or a failure. Unless an attempt among those of the action ends
it, it makes them all. -/
def RepeatFollows (flag : σ → Bool) (calm : σ → Prop) (driver : Driver (EStateM ε σ) E)
    (schedule : Schedule (EStateM ε σ) I O) (action : Action (EStateM ε σ) E I) (world : σ) :
    Prop :=
  ∃ rounds final, schedule.Follows schedule.start rounds final ∧
    ((∃ (last : RepeatLast E I O) (after : σ), rounds.length < action.calls ∧
      last.Fits schedule final ∧
      RepeatEndsBy flag calm driver schedule action world rounds last
        (repeatRounds 1 schedule.start rounds ++ last.deeds (rounds.length + 1) final) after) ∨
    (rounds.length = action.calls ∧
      repeatRounds 1 schedule.start rounds <+:
        ((driver.watched flag).repeatEnd schedule.watched (action.watched flag) world).deeds.filter
          Deed.isDealing))

theorem repeat_refines_schedule (undisturbed : Undisturbed flag calm driver action)
    (steady : schedule.Steady calm) {world : σ} (peace : calm world) :
    RepeatFollows flag calm driver schedule action world := by
  obtain ⟨rounds, final, follows, finish⟩ := undisturbed.repeatFrom_rounds steady action.calls 0
    schedule.start none peace (Nat.zero_add _)
  refine ⟨rounds, final, follows, ?_⟩
  rw [Nat.zero_add rounds.length] at finish
  rcases finish with ⟨last, after, fewer, calmAfter, fits, ends⟩ | unended
  · exact Or.inl ⟨last, after, fewer, fits, RepeatEndsBy.of_deals calmAfter ends⟩
  · exact Or.inr unended

/-- The action succeeds twice, each time before a second is waited, and then an error that is not
fatal ends the repeat. -/
theorem repeat_refines_schedule_spaced :
    let driver := Scenario.makeDriver .tracking (.root 0) none 1
    let action := scriptedAction
      [{ result := .ok .null, times := 2 }, { result := .error .null }] (.root 0)
    RepeatFollows (fun session => (Token.root 0).isCancelled session.cancelled)
        (CalmSession (.root 0) 1) driver (.spaced (.seconds 1)) action {} ∧
      ∃ session, driver.repeatUnder (.spaced (.seconds 1)) action {} =
          .ok (.error (.inner .null)) session ∧
        session.log.waits = [.seconds 1, .seconds 1] := by
  intro driver action
  have plain : ∀ attempt ∈ [({ result := .ok .null, times := 2 } : Attempt),
      { result := .error .null }], attempt.Plain := by decide
  have undisturbed : Undisturbed (fun session => (Token.root 0).isCancelled session.cancelled)
      (CalmSession (.root 0) 1) driver action := CalmSession.undisturbed rfl none plain
  constructor
  · apply repeat_refines_schedule undisturbed (Schedule.steady_of_pure fun _ _ => rfl)
    exact ⟨rfl, rfl, Nat.one_pos⟩
  · exact ⟨_, rfl, rfl⟩

end Cadence
