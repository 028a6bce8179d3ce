import Cadence.Proofs.Account

/-!
Drivers keep an account in their log, in each of the six ways to run. Cancellation is found before
an attempt, on a poll of one, or on a poll of a wait; wherever it is, one line closes the log, and
its number is that of the calls made by then.
-/
namespace Cadence

open Traced

variable {ε σ S I O E T A α β : Type} {flag : σ → Bool}

def cancelledClosing (calls : Nat) : List (Level × Report) := [(.info, ⟨.cancelled, calls⟩)]

def RepeatEnd.closing : RepeatEnd E O → Nat → List (Level × Report)
  | cancelled, calls => cancelledClosing calls
  | fatal _, calls => [(.error, ⟨.repeatFatal, calls⟩)]
  | failed .., calls => [(.debug, ⟨.repeatFailed, calls⟩)]
  | completed _, calls => [(.debug, ⟨.repeatDone, calls⟩)]

/-- How a loop that retries closes its log. A success of the first attempt is not worth a line. -/
def RetryEnd.closing : RetryEnd E O T → Nat → List (Level × Report)
  | cancelled, calls => cancelledClosing calls
  | fatal _, calls => [(.error, ⟨.retryFatal, calls⟩)]
  | exhausted .., calls => [(.warn, ⟨.retryExhausted, calls⟩)]
  | succeeded _, calls => if calls = 1 then [] else [(.debug, ⟨.retrySucceeded, calls⟩)]

def KeepsAccount (line : Duration → Notice) (closing : α → Nat → List (Level × Report))
    (turn made : Nat) (traced : Traced ε σ (Deed S I O E T) α) : Prop :=
  Tells (fun answer deeds => Accounts line (closing answer) [] turn made deeds) traced

section Effects

variable (flag) (driver : Driver (EStateM ε σ) E)

theorem look_tells :
    Tells (fun _ => Silent 0)
      ((driver.watched flag).cancelled : Traced ε σ (Deed S I O E T) Bool) :=
  Tells.record fun _ _ => .quiet ⟨rfl, rfl, rfl, rfl⟩ .nil

theorem idle_tells (wake : Wake) :
    Tells (fun _ => Silent 0)
      ((driver.watched flag).idle wake : Traced ε σ (Deed S I O E T) Unit) :=
  Tells.record fun _ _ => .nil

theorem classify_tells (error : E) :
    Tells (fun _ => Silent 0)
      ((driver.watched flag).classify error : Traced ε σ (Deed S I O E T) Severity) :=
  Tells.record fun _ _ => .quiet ⟨rfl, rfl, rfl, rfl⟩ .nil

theorem log_tells (report : Report) :
    Tells (fun _ deeds => deeds = [.reported report])
      ((driver.watched flag).log report : Traced ε σ (Deed S I O E T) Unit) :=
  Tells.record fun _ _ => rfl

theorem silent_bind {count : Nat} {first : Traced ε σ (Deed S I O E T) α}
    {next : α → Traced ε σ (Deed S I O E T) β} (start : Tells (fun _ => Silent count) first)
    (rest : ∀ value, Tells (fun _ => Silent 0) (next value)) :
    Tells (fun _ => Silent count) (first >>= next) := by
  apply start.bind
  intro value deeds silent
  apply (rest value).mono
  intro _ later quiet
  exact silent.append quiet

theorem race_tells {answered : α → List (Deed S I O E T)}
    (silent : ∀ value, Silent 0 (answered value)) (work : Work (EStateM ε σ) α) :
    Tells (fun _ => Silent 0) ((driver.watched flag).race (work.watched flag answered)) := by
  have polled {deeds : List (Deed S I O E T)} (cancelled : Bool) (rest : Silent 0 deeds) :
      Silent 0 (.polled cancelled :: deeds) := .quiet ⟨rfl, rfl, rfl, rfl⟩ rest
  induction work with
  | ready poll =>
      apply silent_bind (look_tells flag driver)
      intro cancelled
      cases cancelled with
      | true => exact Tells.pure .nil
      | false =>
          have answers : Tells (fun _ => Silent 0)
              (record (fun world => [.polled (flag world)]) answered poll) :=
            Tells.record fun world value => polled _ (silent value)
          exact silent_bind answers fun _ => Tells.pure .nil
  | pending poll rest ih =>
      apply silent_bind (look_tells flag driver)
      intro cancelled
      cases cancelled with
      | true => exact Tells.pure .nil
      | false =>
          have answers : Tells (fun _ => Silent 0) (record (fun world => [.polled (flag world)])
              (Sum.elim (fun _ => []) answered) poll) := by
            apply Tells.record
            intro world outcome
            cases outcome with
            | inl wake => exact polled _ .nil
            | inr value => exact polled _ (silent value)
          apply silent_bind answers
          intro outcome
          cases outcome with
          | inl wake => exact silent_bind (idle_tells flag driver wake) fun _ => ih
          | inr value => exact Tells.pure .nil

def Attempted (made : Nat) : Option α → List (Deed S I O E T) → Prop
  | some _, deeds => Silent 1 deeds
  | none, deeds => ∀ line turn, Accounts line cancelledClosing [] turn made deeds

def Waited (made : Nat) : Bool → List (Deed S I O E T) → Prop
  | true, deeds => Silent 0 deeds
  | false, deeds => ∀ line turn, Accounts line cancelledClosing [] turn made deeds

theorem cancelled_closes {count made attempts : Nat} {first second : List (Deed S I O E T)}
    (silent : Silent count first) (all : made + count = attempts)
    (written : second = [.reported ⟨.cancelled, attempts⟩]) (line : Duration → Notice)
    (turn : Nat) : Accounts line cancelledClosing [] turn made (first ++ second) := by
  rw [written, ← all]
  exact silent.accounts (.closes rfl)

theorem ordered_tells {count : Nat} {deed : σ → Deed S I O E T}
    {answered : α → List (Deed S I O E T)} (ordering : ∀ world, Silent count [deed world])
    (silent : ∀ value, Silent 0 (answered value)) (order : EStateM ε σ (Work (EStateM ε σ) α)) :
    Tells (fun _ => Silent count)
      (Work.ordered flag deed answered order >>= (driver.watched flag).race) := by
  have ordered : Tells (fun _ => Silent count)
      (record (fun world => [deed world]) (fun _ : Work (EStateM ε σ) α => []) order) :=
    Tells.record fun world _ => ordering world
  rw [Work.ordered, bind_assoc]
  apply silent_bind ordered
  intro work
  rw [pure_bind]
  exact race_tells flag driver silent work

theorem attempt_tells (made number : Nat) {answered : α → List (Deed S I O E T)}
    (silent : ∀ value, Silent 0 (answered value))
    (order : EStateM ε σ (Work (EStateM ε σ) α)) :
    Tells (Attempted made) ((driver.watched flag).attempt made
      (Work.ordered flag (fun world => .called number (flag world)) answered order)) := by
  apply (look_tells flag driver).bind
  intro cancelled looked look
  cases cancelled with
  | true =>
      apply (log_tells flag driver _).bind
      intro _ logged written
      apply Tells.pure
      rw [List.append_nil]
      exact cancelled_closes look rfl written
  | false =>
      have ordering (world : σ) : Silent 1 [(.called number (flag world) : Deed S I O E T)] :=
        .called .nil
      have raced := ordered_tells flag driver ordering silent order
      change Tells _ (Work.ordered flag _ answered order >>= fun work =>
        (driver.watched flag).race work >>= _)
      rw [← bind_assoc]
      apply raced.bind
      intro result deeds silent
      cases result with
      | some value =>
          apply Tells.pure
          rw [List.append_nil]
          exact look.append silent
      | none =>
          apply (log_tells flag driver _).bind
          intro _ logged written
          apply Tells.pure
          rw [List.append_nil, ← List.append_assoc]
          exact cancelled_closes (look.append silent) rfl written

theorem wait_tells (made : Nat) (delay : Duration) :
    Tells (Waited made)
      ((driver.watched flag).wait made delay : Traced ε σ (Deed S I O E T) Bool) := by
  rw [Driver.wait]
  split
  next => exact Tells.pure .nil
  next =>
    have ordering (world : σ) : Silent 0 [(.requested delay : Deed S I O E T)] :=
      .quiet ⟨rfl, rfl, rfl, rfl⟩ .nil
    have raced := ordered_tells flag driver ordering (fun _ : Unit => .nil) (driver.sleep delay)
    change Tells _ (Work.ordered flag _ _ _ >>= fun work =>
      (driver.watched flag).race work >>= _)
    rw [← bind_assoc]
    apply raced.bind
    intro result deeds silent
    cases result with
    | some value => exact Tells.pure (by rwa [List.append_nil])
    | none =>
        apply (log_tells flag driver _).bind
        intro _ logged written
        apply Tells.pure
        rw [List.append_nil]
        exact cancelled_closes silent rfl written

end Effects

namespace KeepsAccount

variable {driver : Driver (EStateM ε σ) E} {line : Duration → Notice}
  {closing : β → Nat → List (Level × Report)} {turn made : Nat}

theorem silent_bind {count : Nat} {first : Traced ε σ (Deed S I O E T) α}
    {next : α → Traced ε σ (Deed S I O E T) β} (start : Tells (fun _ => Silent count) first)
    (rest : ∀ value, KeepsAccount line closing turn (made + count) (next value)) :
    KeepsAccount line closing turn made (first >>= next) := by
  apply start.bind
  intro value deeds silent
  apply (rest value).mono
  intro _ later accounts
  exact silent.accounts accounts

theorem closes {report : Report} {halt : β}
    (last : closing halt made = [(report.notice.level, report)]) :
    KeepsAccount line closing turn made (do
      (driver.watched flag).log report
      return halt : Traced ε σ (Deed S I O E T) β) := by
  apply (log_tells flag driver report).bind
  intro _ deeds written
  apply Tells.pure
  rw [List.append_nil, written]
  exact .closes last

theorem attempt_bind (halt : β) {number : Nat} {answered : α → List (Deed S I O E T)}
    (silent : ∀ value, Silent 0 (answered value)) {order : EStateM ε σ (Work (EStateM ε σ) α)}
    {next : Option α → Traced ε σ (Deed S I O E T) β} (halts : next none = pure halt)
    (cancelled : closing halt = cancelledClosing)
    (goesOn : ∀ value, KeepsAccount line closing turn (made + 1) (next (some value))) :
    KeepsAccount line closing turn made ((driver.watched flag).attempt made
      (Work.ordered flag (fun world => .called number (flag world)) answered order) >>= next) := by
  apply (attempt_tells flag driver made number silent order).bind
  intro result deeds attempted
  cases result with
  | none =>
      rw [halts]
      apply Tells.pure
      rw [List.append_nil, cancelled]
      exact attempted line turn
  | some value =>
      apply (goesOn value).mono
      intro _ later accounts
      exact attempted.accounts accounts

theorem wait_bind {halt : β} {delay : Duration} {rest : Traced ε σ (Deed S I O E T) β}
    (cancelled : closing halt = cancelledClosing)
    (goesOn : KeepsAccount line closing turn made rest) :
    KeepsAccount line closing turn made (do
      if ← (driver.watched flag).wait made delay then rest else return halt) := by
  apply (wait_tells flag driver made delay).bind
  intro slept deeds waited
  cases slept with
  | false =>
      apply Tells.pure
      rw [List.append_nil, cancelled]
      exact waited line turn
  | true =>
      apply goesOn.mono
      intro _ later accounts
      exact waited.accounts accounts

theorem proceeds {state next : S} {input : I} {output : O} {delay : Duration}
    {rest : Traced ε σ (Deed S I O E T) β}
    (goesOn : KeepsAccount line closing (turn + 1) turn rest) :
    Tells (fun answer deeds => Accounts line (closing answer) [] turn turn
        (.stepped state input (.proceed output delay next) :: deeds))
      ((driver.watched flag).log ⟨line delay, turn⟩ >>= fun _ => rest) := by
  apply (log_tells flag driver _).bind
  intro _ deeds written
  apply goesOn.mono
  intro _ later accounts
  rw [written]
  exact .proceeds accounts

theorem step_bind {schedule : Schedule (EStateM ε σ) I O} {state : schedule.State} {input : I}
    {next : Decision schedule.State O → Traced ε σ (Deed schedule.State I O E T) β}
    (done : ∀ output, KeepsAccount line closing turn turn (next (.done output)))
    (proceed : ∀ output delay following, Tells (fun answer deeds =>
      Accounts line (closing answer) [] turn turn
        (.stepped state input (.proceed output delay following) :: deeds))
      (next (.proceed output delay following))) :
    KeepsAccount line closing turn turn (schedule.watched.step state input >>= next) := by
  have stepped : Tells (fun decision (deeds : List (Deed schedule.State I O E T)) =>
      deeds = [.stepped state input decision]) (schedule.watched.step state input) :=
    Tells.record fun _ _ => rfl
  apply stepped.bind
  intro decision deeds only
  rw [only]
  cases decision with
  | done output =>
      apply (done output).mono
      intro _ later accounts
      exact .quiet ⟨rfl, rfl, rfl, rfl⟩ accounts
  | proceed output delay following => exact proceed output delay following

end KeepsAccount

section Loops

variable (flag) (driver : Driver (EStateM ε σ) E)

theorem finished_silent (result : Except E T) :
    Silent 0 [(.finished result : Deed S I O E T)] := .quiet ⟨rfl, rfl, rfl, rfl⟩ .nil

theorem repeatFrom_keepsAccount (schedule : Schedule (EStateM ε σ) I O)
    (action : Action (EStateM ε σ) E I) (remaining made : Nat) (state : schedule.State)
    (last : Option O) :
    KeepsAccount .repeatProceeding RepeatEnd.closing (made + 1) made
      ((driver.watched flag).repeatFrom schedule.watched (action.watched flag) remaining made state
        last) := by
  induction remaining generalizing made state last with
  | zero => exact KeepsAccount.attempt_bind .cancelled nofun rfl rfl nofun
  | succ remaining ih =>
      refine KeepsAccount.attempt_bind .cancelled finished_silent rfl rfl ?_
      intro result
      cases result with
      | error error =>
          apply KeepsAccount.silent_bind (classify_tells flag driver error)
          intro severity
          cases severity with
          | fatal => exact KeepsAccount.closes rfl
          | recoverable => exact KeepsAccount.closes rfl
      | ok input =>
          apply KeepsAccount.step_bind
          · intro output
            exact KeepsAccount.closes rfl
          · intro output delay next
            apply KeepsAccount.proceeds
            apply KeepsAccount.wait_bind rfl
            exact ih (made + 1) next (some output)

theorem retryFrom_keepsAccount (schedule : Schedule (EStateM ε σ) E O)
    (action : Action (EStateM ε σ) E T) (remaining made : Nat) (state : schedule.State) :
    KeepsAccount .retryProceeding RetryEnd.closing (made + 1) made
      ((driver.watched flag).retryFrom schedule.watched (action.watched flag) remaining made
        state) := by
  induction remaining generalizing made state with
  | zero => exact KeepsAccount.attempt_bind .cancelled nofun rfl rfl nofun
  | succ remaining ih =>
      refine KeepsAccount.attempt_bind .cancelled finished_silent rfl rfl ?_
      intro result
      cases result with
      | ok value =>
          by_cases later : 0 < made
          · have number : ¬made + 1 = 1 := by omega
            have last : RetryEnd.closing (.succeeded value : RetryEnd E O T) (made + 1) =
                [(.debug, ⟨.retrySucceeded, made + 1⟩)] := if_neg number
            simp only [if_pos later]
            exact KeepsAccount.closes last
          · have number : made + 1 = 1 := by omega
            simp only [if_neg later]
            exact Tells.pure (.nothing (if_pos number))
      | error error =>
          apply KeepsAccount.silent_bind (classify_tells flag driver error)
          intro severity
          cases severity with
          | fatal => exact KeepsAccount.closes rfl
          | recoverable =>
              apply KeepsAccount.step_bind
              · intro output
                exact KeepsAccount.closes rfl
              · intro output delay next
                apply KeepsAccount.proceeds
                apply KeepsAccount.wait_bind rfl
                exact ih (made + 1) next

end Loops

def repeatClosing (answer : Except (RunError E) α) (fellBack : Bool) (calls : Nat) :
    List (Level × Report) :=
  match answer with
  | .error .cancelled => [(.info, ⟨.cancelled, calls⟩)]
  | .error (.fatal _) => [(.error, ⟨.repeatFatal, calls⟩)]
  | .error _ => [(.debug, ⟨.repeatFailed, calls⟩)]
  | .ok _ => [(.debug, ⟨if fellBack then .repeatFailed else .repeatDone, calls⟩)]

def retryClosing (answer : Except (RunError E) α) (fellBack : Bool) (calls : Nat) :
    List (Level × Report) :=
  match answer with
  | .error .cancelled => [(.info, ⟨.cancelled, calls⟩)]
  | .error (.fatal _) => [(.error, ⟨.retryFatal, calls⟩)]
  | .error _ => [(.warn, ⟨.retryExhausted, calls⟩)]
  | .ok _ =>
      if fellBack then [(.warn, ⟨.retryExhausted, calls⟩)]
      else if calls = 1 then [] else [(.debug, ⟨.retrySucceeded, calls⟩)]

theorem repeatClosing_map (answer : Except (RunError E) α) (merge : α → β) :
    repeatClosing (answer.map merge) = repeatClosing answer := by
  cases answer with
  | error error => cases error <;> rfl
  | ok value => rfl

theorem retryClosing_map (answer : Except (RunError E) α) (merge : α → β) :
    retryClosing (answer.map merge) = retryClosing answer := by
  cases answer with
  | error error => cases error <;> rfl
  | ok value => rfl

def Settled (line : Duration → Notice) (closing : α → Bool → Nat → List (Level × Report))
    (answer : α) (deeds : List (Deed S I O E T)) : Prop :=
  ∃ tail, (∀ deed ∈ tail, deed.isFallback = true) ∧
    Accounts line (closing answer !tail.isEmpty) tail 1 0 deeds

theorem Settled.of_keepsAccount {line : Duration → Notice}
    {closing : β → Nat → List (Level × Report)} {report : α → Bool → Nat → List (Level × Report)}
    {ending : Traced ε σ (Deed S I O E T) β} {settle : β → Traced ε σ (Deed S I O E T) α}
    (keeps : KeepsAccount line closing 1 0 ending)
    (settles : ∀ finish, Tells (fun answer tail => (∀ deed ∈ tail, deed.isFallback = true) ∧
      closing finish = report answer !tail.isEmpty) (settle finish)) :
    Tells (Settled line report) (ending >>= settle) := by
  apply keeps.bind
  intro finish deeds accounts
  apply (settles finish).mono
  intro answer tail settled
  obtain ⟨falls, same⟩ := settled
  rw [same] at accounts
  exact ⟨tail, falls, accounts.append_tail⟩

theorem Settled.map {line : Duration → Notice} {closing : α → Bool → Nat → List (Level × Report)}
    {report : β → Bool → Nat → List (Level × Report)} {traced : Traced ε σ (Deed S I O E T) α}
    (tells : Tells (Settled line closing) traced) (merged : α → β)
    (same : ∀ answer, closing answer = report (merged answer)) :
    Tells (Settled line report) (do return merged (← traced)) := by
  apply tells.bind
  intro answer deeds settled
  obtain ⟨tail, falls, accounts⟩ := settled
  apply Tells.pure
  rw [List.append_nil]
  rw [same] at accounts
  exact ⟨tail, falls, accounts⟩

/-- The log of a run is a faithful account of it: of every decision to go on, in order and before
anything is done about the wait, and of the end, by the answer. -/
structure KeepsLog (line : Duration → Notice) (closing : α → Bool → Nat → List (Level × Report))
    (plain : EStateM ε σ α) (traced : Traced ε σ (Deed S I O E T) α) (world : σ) : Prop where
  faithful : plain world = (traced world).result
  lines : ∀ {answer : α}, (traced world).outcome = .ok answer →
    logLines (traced world).deeds = numbered line 1 (chosenDelays (traced world).deeds) ++
      closing answer ((traced world).deeds.any Deed.isFallback) (callCount (traced world).deeds)
  prompt : ∀ {answer : α} {before after : List (Deed S I O E T)} {state next : S} {input : I}
      {output : O} {delay : Duration}, (traced world).outcome = .ok answer →
    (traced world).deeds = before ++ .stepped state input (.proceed output delay next) :: after →
      ∃ rest, after = .reported ⟨line delay, callCount before⟩ :: rest
  counted : ∀ {answer : α}, (traced world).outcome = .ok answer →
    (logLines (traced world).deeds).countP (fun line => line.2.notice.delay?.isSome) =
      (chosenDelays (traced world).deeds).length

/-- The notice of a decision to go on, and that the lines at the end are none of these. -/
structure Marks (line : Duration → Notice)
    (closing : α → Bool → Nat → List (Level × Report)) : Prop where
  debug : ∀ delay, (line delay).level = .debug
  delay : ∀ delay, (line delay).delay? = some delay
  ends : ∀ answer fellBack calls, ∀ line ∈ closing answer fellBack calls,
    line.2.notice.delay? = none

namespace KeepsLog

variable {line : Duration → Notice} {closing : α → Bool → Nat → List (Level × Report)}

theorem countP_numbered (marks : Marks line closing) (turn : Nat) (delays : List Duration)
    (answer : α) (fellBack : Bool) (calls : Nat) :
    (numbered line turn delays ++ closing answer fellBack calls).countP
      (fun line => line.2.notice.delay?.isSome) = delays.length := by
  have continuing : (numbered line turn delays).countP
      (fun line => line.2.notice.delay?.isSome) = (numbered line turn delays).length := by
    rw [List.countP_eq_length]
    intro written member
    obtain ⟨index, bound, rfl⟩ := List.mem_mapIdx.mp member
    exact (congrArg Option.isSome (marks.delay _)).trans rfl
  have ending : (closing answer fellBack calls).countP
      (fun line => line.2.notice.delay?.isSome) = 0 := by
    rw [List.countP_eq_zero]
    intro last member
    rw [marks.ends answer fellBack calls last member]
    exact Bool.false_ne_true
  rw [List.countP_append, continuing, ending, Nat.add_zero]
  exact List.length_mapIdx

theorem of_settled {plain : EStateM ε σ α} {traced : Traced ε σ (Deed S I O E T) α}
    (settled : Tells (Settled line closing) traced) (marks : Marks line closing)
    (erased : traced.erase = plain) (world : σ) : KeepsLog line closing plain traced world := by
  have written : ∀ {answer : α}, (traced world).outcome = .ok answer →
      logLines (traced world).deeds = numbered line 1 (chosenDelays (traced world).deeds) ++
        closing answer ((traced world).deeds.any Deed.isFallback)
          (callCount (traced world).deeds) := by
    intro answer outcome
    obtain ⟨tail, falls, accounts⟩ := settled.answered world answer outcome
    have lines := accounts.lines falls marks.debug
    rwa [Nat.zero_add, ← accounts.any_isFallback falls] at lines
  constructor
  · rw [← erased]
    rfl
  · exact written
  · intro answer before after state next input output delay outcome split
    obtain ⟨tail, falls, accounts⟩ := settled.answered world answer outcome
    have prompted := accounts.prompt falls split
    rwa [Nat.zero_add] at prompted
  · intro answer outcome
    rw [written outcome, countP_numbered marks]

end KeepsLog

theorem repeat_marks :
    Marks .repeatProceeding (repeatClosing : Except (RunError E) α → _) where
  debug _ := rfl
  delay _ := rfl
  ends answer fellBack calls := by
    intro last member
    match answer, fellBack with
    | .error .cancelled, _ | .error (.fatal _), _ | .error (.inner _), _
    | .error (.exhausted ..), _ | .ok _, true | .ok _, false =>
        rw [List.mem_singleton.mp member]
        rfl

theorem retry_marks :
    Marks .retryProceeding (retryClosing : Except (RunError E) α → _) where
  debug _ := rfl
  delay _ := rfl
  ends answer fellBack calls := by
    intro last member
    match answer, fellBack with
    | .error .cancelled, _ | .error (.fatal _), _ | .error (.inner _), _
    | .error (.exhausted ..), _ | .ok _, true =>
        rw [List.mem_singleton.mp member]
        rfl
    | .ok _, false =>
        by_cases first : calls = 1
        · simp [retryClosing, first] at member
        · simp only [retryClosing, first, Bool.false_eq_true, if_false] at member
          rw [List.mem_singleton.mp member]
          rfl

structure RepeatLogs (flag : σ → Bool) (driver : Driver (EStateM ε σ) E)
    (schedule : Schedule (EStateM ε σ) I O) (action : Action (EStateM ε σ) E I) (world : σ) :
    Prop where
  under : KeepsLog .repeatProceeding repeatClosing (driver.repeatUnder schedule action)
    ((driver.watched flag).repeatUnder schedule.watched (action.watched flag)) world
  orElseEither : ∀ {A : Type} (fallback : E → Option O → EStateM ε σ A),
    KeepsLog .repeatProceeding repeatClosing (driver.repeatOrElseEither schedule action fallback)
      ((driver.watched flag).repeatOrElseEither schedule.watched (action.watched flag)
        (watchedFallback fallback)) world
  orElse : ∀ fallback : E → Option O → EStateM ε σ O,
    KeepsLog .repeatProceeding repeatClosing (driver.repeatOrElse schedule action fallback)
      ((driver.watched flag).repeatOrElse schedule.watched (action.watched flag)
        (watchedFallback fallback)) world

structure RetryLogs (flag : σ → Bool) (driver : Driver (EStateM ε σ) E)
    (schedule : Schedule (EStateM ε σ) E O) (action : Action (EStateM ε σ) E T) (world : σ) :
    Prop where
  under : KeepsLog .retryProceeding retryClosing (driver.retryUnder schedule action)
    ((driver.watched flag).retryUnder schedule.watched (action.watched flag)) world
  orElseEither : ∀ {A : Type} (fallback : E → O → EStateM ε σ A),
    KeepsLog .retryProceeding retryClosing (driver.retryOrElseEither schedule action fallback)
      ((driver.watched flag).retryOrElseEither schedule.watched (action.watched flag)
        (watchedLastResort fallback)) world
  orElse : ∀ fallback : E → O → EStateM ε σ T,
    KeepsLog .retryProceeding retryClosing (driver.retryOrElse schedule action fallback)
      ((driver.watched flag).retryOrElse schedule.watched (action.watched flag)
        (watchedLastResort fallback)) world

section Settling

variable (flag) (driver : Driver (EStateM ε σ) E)

theorem repeatUnder_settled (schedule : Schedule (EStateM ε σ) I O)
    (action : Action (EStateM ε σ) E I) :
    Tells (Settled .repeatProceeding repeatClosing)
      ((driver.watched flag).repeatUnder schedule.watched (action.watched flag)) := by
  apply Settled.of_keepsAccount (repeatFrom_keepsAccount flag driver schedule action _ 0 _ none)
  intro finish
  cases finish with
  | _ => exact Tells.pure ⟨nofun, rfl⟩

theorem repeatOrElseEither_settled (schedule : Schedule (EStateM ε σ) I O)
    (action : Action (EStateM ε σ) E I) (fallback : E → Option O → EStateM ε σ A) :
    Tells (Settled .repeatProceeding repeatClosing)
      ((driver.watched flag).repeatOrElseEither schedule.watched (action.watched flag)
        (watchedFallback fallback)) := by
  apply Settled.of_keepsAccount (repeatFrom_keepsAccount flag driver schedule action _ 0 _ none)
  intro finish
  cases finish with
  | failed error last =>
      have fell : Tells (fun _ deeds => deeds = [.fellBack error last])
          (watchedFallback fallback error last : Traced ε σ (Deed schedule.State I O E I) A) :=
        Tells.record fun _ _ => rfl
      apply fell.bind
      intro value deeds only
      apply Tells.pure
      rw [only]
      exact ⟨by simp [Deed.isFallback], rfl⟩
  | _ => exact Tells.pure ⟨nofun, rfl⟩

theorem retryUnder_settled (schedule : Schedule (EStateM ε σ) E O)
    (action : Action (EStateM ε σ) E T) :
    Tells (Settled .retryProceeding retryClosing)
      ((driver.watched flag).retryUnder schedule.watched (action.watched flag)) := by
  apply Settled.of_keepsAccount (retryFrom_keepsAccount flag driver schedule action _ 0 _)
  intro finish
  cases finish with
  | _ => exact Tells.pure ⟨nofun, rfl⟩

theorem retryOrElseEither_settled (schedule : Schedule (EStateM ε σ) E O)
    (action : Action (EStateM ε σ) E T) (fallback : E → O → EStateM ε σ A) :
    Tells (Settled .retryProceeding retryClosing)
      ((driver.watched flag).retryOrElseEither schedule.watched (action.watched flag)
        (watchedLastResort fallback)) := by
  apply Settled.of_keepsAccount (retryFrom_keepsAccount flag driver schedule action _ 0 _)
  intro finish
  cases finish with
  | exhausted attempts error output =>
      have fell : Tells (fun _ deeds => deeds = [.fellBack error (some output)])
          (watchedLastResort fallback error output :
            Traced ε σ (Deed schedule.State E O E T) A) := Tells.record fun _ _ => rfl
      apply fell.bind
      intro value deeds only
      apply Tells.pure
      rw [only]
      exact ⟨by simp [Deed.isFallback], rfl⟩
  | _ => exact Tells.pure ⟨nofun, rfl⟩

end Settling

theorem repeat_logs (flag : σ → Bool) (driver : Driver (EStateM ε σ) E)
    (schedule : Schedule (EStateM ε σ) I O) (action : Action (EStateM ε σ) E I) (world : σ) :
    RepeatLogs flag driver schedule action world where
  under := KeepsLog.of_settled (repeatUnder_settled flag driver schedule action) repeat_marks
    (Driver.erase_repeatUnder flag driver schedule action) world
  orElseEither fallback :=
    KeepsLog.of_settled (repeatOrElseEither_settled flag driver schedule action fallback)
      repeat_marks (Driver.erase_repeatOrElseEither flag driver schedule action fallback) world
  orElse fallback := by
    have either := repeatOrElseEither_settled flag driver schedule action fallback
    have merged := Settled.map either (Except.map Driver.merge) fun answer =>
      (repeatClosing_map answer Driver.merge).symm
    exact KeepsLog.of_settled merged repeat_marks
      (Driver.erase_repeatOrElse flag driver schedule action fallback) world

theorem retry_logs (flag : σ → Bool) (driver : Driver (EStateM ε σ) E)
    (schedule : Schedule (EStateM ε σ) E O) (action : Action (EStateM ε σ) E T) (world : σ) :
    RetryLogs flag driver schedule action world where
  under := KeepsLog.of_settled (retryUnder_settled flag driver schedule action) retry_marks
    (Driver.erase_retryUnder flag driver schedule action) world
  orElseEither fallback :=
    KeepsLog.of_settled (retryOrElseEither_settled flag driver schedule action fallback)
      retry_marks (Driver.erase_retryOrElseEither flag driver schedule action fallback) world
  orElse fallback := by
    have either := retryOrElseEither_settled flag driver schedule action fallback
    have merged := Settled.map either (Except.map Driver.merge) fun answer =>
      (retryClosing_map answer Driver.merge).symm
    exact KeepsLog.of_settled merged retry_marks
      (Driver.erase_retryOrElse flag driver schedule action fallback) world

/-- Whatever the driver, the schedule and the action do, the log of each run that answers accounts
for it. -/
theorem runs_keep_log (flag : σ → Bool) (driver : Driver (EStateM ε σ) E) (world : σ) :
    (∀ {I O : Type} (schedule : Schedule (EStateM ε σ) I O) (action : Action (EStateM ε σ) E I),
      RepeatLogs flag driver schedule action world) ∧
    ∀ {O T : Type} (schedule : Schedule (EStateM ε σ) E O) (action : Action (EStateM ε σ) E T),
      RetryLogs flag driver schedule action world :=
  ⟨fun schedule action => repeat_logs flag driver schedule action world,
    fun schedule action => retry_logs flag driver schedule action world⟩

/-- The second wait cancels: its line is written all the same, and two calls were made. -/
theorem runs_keep_log_cancelled_wait :
    logLines (((Scenario.makeDriver (.cancelling 2 .ready) (.root 0) none 1).watched
      (fun session => (Token.root 0).isCancelled session.cancelled)).retryUnder
        (Schedule.spaced (.millis 5)).watched
        ((scriptedAction [{ result := .error .null, times := 3 }] (.root 0)).watched
          (fun session => (Token.root 0).isCancelled session.cancelled))
        {}).deeds =
      [(.debug, ⟨.retryProceeding (.millis 5), 1⟩), (.debug, ⟨.retryProceeding (.millis 5), 2⟩),
        (.info, ⟨.cancelled, 2⟩)] := by
  have logs := (runs_keep_log (fun session => (Token.root 0).isCancelled session.cancelled)
    (Scenario.makeDriver (.cancelling 2 .ready) (.root 0) none 1) {}).2 (.spaced (.millis 5))
      (scriptedAction [{ result := .error .null, times := 3 }] (.root 0))
  have stopped : (((Scenario.makeDriver (.cancelling 2 .ready) (.root 0) none 1).watched
      (fun session => (Token.root 0).isCancelled session.cancelled)).retryUnder
        (Schedule.spaced (.millis 5)).watched
        ((scriptedAction [{ result := .error .null, times := 3 }] (.root 0)).watched
          (fun session => (Token.root 0).isCancelled session.cancelled))
        {}).outcome = .ok (.error .cancelled) := by rfl
  exact logs.under.lines stopped

end Cadence
