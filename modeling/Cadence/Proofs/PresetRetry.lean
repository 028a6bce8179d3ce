import Cadence.Proofs.Failing
import Cadence.Proofs.PresetRun
import Cadence.Proofs.RetryRun

namespace Cadence

variable {ε σ S I O E T A : Type}

def Deed.call? : Deed S I O E T → Option Nat
  | called number _ => some number
  | _ => none

def Deed.request? : Deed S I O E T → Option Duration
  | requested delay => some delay
  | _ => none

theorem retryRounds_calls (number : Nat) (state : S) (rounds : List (Round S E O)) :
    (retryRounds number state rounds : List (Deed S E O E T)).filterMap Deed.call? =
      List.range' number rounds.length := by
  induction rounds generalizing number state with
  | nil => rfl
  | cons round rounds ih =>
      have quiet : (round.waited : List (Deed S E O E T)).filterMap Deed.call? = [] := by
        rw [Round.waited]
        split <;> rfl
      rw [retryRounds, List.filterMap_append, List.filterMap_append, quiet, ih,
        List.length_cons, List.range'_succ]
      rfl

theorem retryRounds_requests (number : Nat) (state : S) (rounds : List (Round S E O)) :
    (retryRounds number state rounds : List (Deed S E O E T)).filterMap Deed.request? =
      (rounds.map (·.delay)).filter (!·.isZero) := by
  induction rounds generalizing number state with
  | nil => rfl
  | cons round rounds ih =>
      rw [retryRounds, List.filterMap_append, List.filterMap_append, ih, List.map_cons,
        List.filter_cons, Round.waited]
      cases round.delay.isZero <;> rfl

namespace Schedule

section Steady

variable {calm : σ → Prop}

theorem Steady.zipLeft {left : Schedule (EStateM ε σ) I O} {right : Schedule (EStateM ε σ) I A}
    (leftSteady : left.Steady calm) (rightSteady : right.Steady calm) :
    (left.zipLeft right).Steady calm := by
  intro (state, state') input
  refine (leftSteady state input).bind fun ours => ?_
  refine (rightSteady state' input).bind fun theirs => ?_
  refine (Calmly.pure ours.output).bind fun output => ?_
  cases ours <;> cases theirs <;> exact .pure _

theorem Steady.delayed {schedule : Schedule (EStateM ε σ) I O} (steady : schedule.Steady calm)
    {adjust : O → Duration → EStateM ε σ Duration}
    (adjusts : ∀ output delay, Calmly calm (adjust output delay)) :
    (schedule.delayed adjust).Steady calm := by
  intro state input
  refine (steady state input).bind fun decision => ?_
  cases decision with
  | done output => exact .pure _
  | proceed output delay next => exact (adjusts output delay).bind fun _ => .pure _

end Steady

theorem Simulation.answers {source : Schedule (EStateM ε σ) I O}
    {target : Schedule (EStateM ε σ) I A} {view : O → A}
    (simulation : Simulation source target view)
    {state : source.State} {input : I} {decision : Decision target.State A}
    (answers : target.Answers (simulation.carry state) input decision) :
    ∃ shown, source.Answers state input shown ∧ decision = shown.bimap simulation.carry view := by
  obtain ⟨world, after, ran⟩ := answers
  have steps : Ensures (source.Answers state input) (source.step state input) :=
    fun world _ after ran => ⟨world, after, ran⟩
  have carried : Ensures (fun decision => ∃ shown, source.Answers state input shown ∧
      decision = shown.bimap simulation.carry view)
      (target.step (simulation.carry state) input) := by
    rw [simulation.step]
    exact steps.map fun shown here => ⟨shown, here, rfl⟩
  exact carried world decision after ran

section Counted

variable {retries : Nat} {delay : Nat → EStateM ε σ Duration} {allowed : Nat → Duration → Prop}
  {target : Schedule (EStateM ε σ) I Nat}

theorem counted_answers_of_lt (allows : ∀ count, Ensures (allowed count) (delay count))
    {count : Nat} {input : I} {decision : Decision Nat Nat} (more : count < retries)
    (answers : (counted (I := I) retries delay).Answers count input decision) :
    ∃ wait, allowed count wait ∧ decision = .proceed count wait (count + 1) := by
  obtain ⟨world, after, ran⟩ := answers
  simp only [more, ↓reduceIte] at ran
  have counts : Ensures
      (fun shown : Decision Nat Nat =>
        ∃ wait, allowed count wait ∧ shown = .proceed count wait (count + 1))
      (delay count >>= fun wait => pure (.proceed count wait (count + 1))) :=
    (allows count).bind fun wait here => .pure ⟨wait, here, rfl⟩
  exact counts world decision after ran

theorem counted_answers_of_le {count : Nat} {input : I} {decision : Decision Nat Nat}
    (spent : retries ≤ count)
    (answers : (counted (I := I) retries delay).Answers count input decision) :
    decision = .done count := by
  obtain ⟨world, after, ran⟩ := answers
  simp only [Nat.not_lt.mpr spent, ↓reduceIte] at ran
  cases ran
  rfl

theorem counted_proceeds (simulation : Simulation (counted retries delay) target id)
    (allows : ∀ count, Ensures (allowed count) (delay count)) {count output : Nat} {input : I}
    {wait : Duration} {next : target.State}
    (answers : target.Answers (simulation.carry count) input (.proceed output wait next)) :
    count < retries ∧ output = count ∧ allowed count wait ∧
      next = simulation.carry (count + 1) := by
  obtain ⟨shown, counts, viewed⟩ := simulation.answers answers
  by_cases more : count < retries
  · obtain ⟨waited, here, rfl⟩ := counted_answers_of_lt allows more counts
    cases viewed
    exact ⟨more, rfl, here, rfl⟩
  · cases counted_answers_of_le (Nat.le_of_not_lt more) counts
    exact nomatch viewed

theorem counted_done (simulation : Simulation (counted retries delay) target id)
    (allows : ∀ count, Ensures (allowed count) (delay count)) {count output : Nat} {input : I}
    (answers : target.Answers (simulation.carry count) input (.done output)) :
    retries ≤ count ∧ output = count := by
  obtain ⟨shown, counts, viewed⟩ := simulation.answers answers
  by_cases more : count < retries
  · obtain ⟨waited, here, rfl⟩ := counted_answers_of_lt allows more counts
    exact nomatch viewed
  · cases counted_answers_of_le (Nat.le_of_not_lt more) counts
    cases viewed
    exact ⟨Nat.le_of_not_lt more, rfl⟩

/-- Rounds that count from `count` on without passing the limit, each with a delay that is
allowed. -/
structure Tallies (allowed : Nat → Duration → Prop) (retries count : Nat)
    (rounds : List (Round S I Nat)) : Prop where
  within : count + rounds.length ≤ retries
  outputs : rounds.map (·.output) = List.range' count rounds.length
  delays : List.Forall₂ allowed (List.range' count rounds.length) (rounds.map (·.delay))

theorem counted_follows (simulation : Simulation (counted retries delay) target id)
    (allows : ∀ count, Ensures (allowed count) (delay count)) {count : Nat}
    (bounded : count ≤ retries) {rounds : List (Round target.State I Nat)} {final : target.State}
    (follows : target.Follows (simulation.carry count) rounds final) :
    final = simulation.carry (count + rounds.length) ∧ Tallies allowed retries count rounds := by
  induction rounds generalizing count with
  | nil =>
      cases follows
      exact ⟨rfl, bounded, rfl, .nil⟩
  | cons round rounds ih =>
      cases follows with
      | cons answers follows =>
          obtain ⟨more, output, here, next⟩ := counted_proceeds simulation allows answers
          rw [next] at follows
          obtain ⟨reached, tallies⟩ := ih more follows
          have place : count + (round :: rounds).length = count + 1 + rounds.length := by
            rw [List.length_cons]
            omega
          refine ⟨place ▸ reached, place ▸ tallies.within, ?_, ?_⟩
          · rw [List.map_cons, List.length_cons, List.range'_succ, output, tallies.outputs]
          · rw [List.map_cons, List.length_cons, List.range'_succ]
            exact .cons here tallies.delays

end Counted
end Schedule

/-- A retry that is given up after `rounds`: they count to the limit with delays that are allowed,
the calls are those of the rounds and one more, waits are asked for where the delay is not zero, and
each of the three ways to retry ends as one whose schedule is done. -/
structure GivesUp (flag : σ → Bool) (calm : σ → Prop) (driver : Driver (EStateM ε σ) E)
    (schedule : Schedule (EStateM ε σ) E Nat) (action : Action (EStateM ε σ) E T) (world : σ)
    (retries : Nat) (allowed : Nat → Duration → Prop)
    (rounds : List (Round schedule.State E Nat)) (error : E)
    (told : List (Deed schedule.State E Nat E T)) (after : σ) : Prop where
  outputs : rounds.map (·.output) = List.range retries
  delays : List.Forall₂ allowed (List.range retries) (rounds.map (·.delay))
  calls : told.filterMap Deed.call? = List.range' 1 (retries + 1)
  requests : told.filterMap Deed.request? = (rounds.map (·.delay)).filter (!·.isZero)
  ends : RetryEndsBy flag calm driver schedule action world rounds (.exhausted error retries) told
    after

def RetriesOut (flag : σ → Bool) (calm : σ → Prop) (driver : Driver (EStateM ε σ) E)
    (schedule : Schedule (EStateM ε σ) E Nat) (action : Action (EStateM ε σ) E T) (world : σ)
    (retries : Nat) (allowed : Nat → Duration → Prop) : Prop :=
  ∃ rounds final error after, schedule.Follows schedule.start rounds final ∧
    GivesUp flag calm driver schedule action world retries allowed rounds error
      (retryRounds 1 schedule.start rounds ++
        (RetryLast.exhausted error retries).deeds (retries + 1) final) after

section RetriesOut

variable {flag : σ → Bool} {calm : σ → Prop} {driver : Driver (EStateM ε σ) E}
  {action : Action (EStateM ε σ) E T} {world : σ} {retries : Nat}

theorem RetriesOut.of_counted {delay : Nat → EStateM ε σ Duration}
    {allowed : Nat → Duration → Prop} {target : Schedule (EStateM ε σ) E Nat}
    (undisturbed : Undisturbed flag calm driver action) (fails : FailsRecoverably driver action)
    (enough : retries < action.calls) (peace : calm world) (steady : target.Steady calm)
    (simulation : Schedule.Simulation (Schedule.counted retries delay) target id)
    (allows : ∀ count, Ensures (allowed count) (delay count)) :
    RetriesOut flag calm driver target action world retries allowed := by
  obtain ⟨rounds, final, follows, finish⟩ :=
    undisturbed.retryFrom_rounds steady action.calls 0 target.start peace (Nat.zero_add _)
  have counts := follows
  rw [← simulation.start] at counts
  obtain ⟨reached, within, outputs, delays⟩ :=
    Schedule.counted_follows simulation allows (Nat.zero_le retries) counts
  rw [Nat.zero_add rounds.length] at finish reached within
  rcases finish with ⟨last, after, _, calmAfter, fits, ends⟩ | ⟨all, _⟩
  · -- The attempts settle nothing, so it is the schedule that ended the run.
    have ended :
        driver.retryEnd target action world = .ok (last.toEnd (rounds.length + 1)) after := by
      rw [← Driver.erase_retryEnd flag]
      exact ends.erase
    have unsettled := driver.retryFrom_ensures fails target action.calls 0 target.start
      (Nat.zero_add _) world _ after ended
    cases last with
    | succeeded value => exact unsettled.elim
    | fatal error => exact unsettled.elim
    | exhausted error output =>
        rw [reached] at fits
        obtain ⟨spent, rfl⟩ := Schedule.counted_done simulation allows fits
        obtain rfl : retries = rounds.length := Nat.le_antisymm spent within
        rw [← List.range_eq_range'] at outputs delays
        refine ⟨rounds, final, error, after, follows, outputs, delays, ?_, ?_, ?_⟩
        · rw [List.filterMap_append, retryRounds_calls, List.range'_1_concat,
            Nat.add_comm 1 rounds.length]
          rfl
        · rw [List.filterMap_append, retryRounds_requests]
          exact List.append_nil _
        · exact RetryEndsBy.of_deals calmAfter ends
  · -- The machine goes on for fewer rounds than there are calls.
    omega

end RetriesOut

/-- Where nothing disturbs a driver and every attempt fails recoverably, a retry under the schedule
is given up after so many retries. -/
def Schedule.IsGivenUp (calm : σ → Prop) (schedule : Schedule (EStateM ε σ) E Nat) (retries : Nat)
    (allowed : Nat → Duration → Prop) : Prop :=
  ∀ {T : Type} (flag : σ → Bool) (driver : Driver (EStateM ε σ) E)
    (action : Action (EStateM ε σ) E T) (world : σ),
    Undisturbed flag calm driver action → FailsRecoverably driver action →
      retries < action.calls → calm world →
        RetriesOut flag calm driver schedule action world retries allowed

structure Schedule.Bounds (calm : σ → Prop) (schedule : Schedule (EStateM ε σ) E Nat)
    (retries : Nat) (delay : Nat → Duration) : Prop where
  run : schedule.CountsWith retries delay
  retry : schedule.IsGivenUp calm retries fun count wait => wait = delay count

structure Schedule.BoundsWithin (calm : σ → Prop) (schedule : Schedule (EStateM ε σ) E Nat)
    (retries : Nat) (bound : Nat → Duration) : Prop where
  run : schedule.CountsWithin calm retries bound
  retry : schedule.IsGivenUp calm retries fun count wait => wait ≤ bound count

namespace Schedule

variable {calm : σ → Prop} {retries : Nat}

theorem Bounds.of_counted {delay : Nat → Duration} {target : Schedule (EStateM ε σ) E Nat}
    (steady : target.Steady calm)
    (simulation : Simulation (counted retries fun count => pure (delay count)) target id) :
    target.Bounds calm retries delay where
  run := .of_counted simulation
  retry _ _ _ _ undisturbed fails enough peace :=
    .of_counted undisturbed fails enough peace steady simulation fun _ => .pure rfl

theorem BoundsWithin.of_counted {delay : Nat → EStateM ε σ Duration} {bound : Nat → Duration}
    {target : Schedule (EStateM ε σ) E Nat} (steady : target.Steady calm)
    (simulation : Simulation (counted retries delay) target id)
    (calmly : ∀ count, Calmly calm (delay count))
    (within : ∀ count, Ensures (· ≤ bound count) (delay count)) :
    target.BoundsWithin calm retries bound where
  run := .of_counted simulation calmly within
  retry _ _ _ _ undisturbed fails enough peace :=
    .of_counted undisturbed fails enough peace steady simulation within

end Schedule

end Cadence
