import Cadence.Proofs.Watch

/-!
Calm worlds: the token is not cancelled in them and nothing breaks off. There an attempt ends with
the result of its work and a wait takes its time.
-/
namespace Cadence

open Traced

variable {ε σ S I O E T A α : Type}

/-- In every calm world the effect answers, and leaves a calm world. -/
def Calmly (calm : σ → Prop) (effect : EStateM ε σ α) : Prop :=
  ∀ world, calm world → ∃ value after, effect world = .ok value after ∧ calm after

/-- Every poll answers; after one that leaves the work unfinished the pause ends. -/
def Work.Completes (calm : σ → Prop) (idle : Wake → EStateM ε σ Unit) :
    Work (EStateM ε σ) α → Prop
  | .ready poll => Calmly calm poll
  | .pending poll rest =>
      (∀ world, calm world →
        (∃ value after, poll world = .ok (.inr value) after ∧ calm after) ∨
        ∃ wake middle after,
          poll world = .ok (.inl wake) middle ∧ idle wake middle = .ok () after ∧ calm after) ∧
      rest.Completes calm idle

def Delivers (calm : σ → Prop) (idle : Wake → EStateM ε σ Unit)
    (order : EStateM ε σ (Work (EStateM ε σ) α)) : Prop :=
  ∀ world, calm world →
    ∃ work after, order world = .ok work after ∧ calm after ∧ work.Completes calm idle

/-- The token is never found cancelled, waits and attempts complete, and neither the classifier nor
the log breaks off. -/
structure Undisturbed (flag : σ → Bool) (calm : σ → Prop) (driver : Driver (EStateM ε σ) E)
    (action : Action (EStateM ε σ) E T) : Prop where
  token : ∀ world, driver.cancelled world = .ok (flag world) world
  active : ∀ world, calm world → flag world = false
  sleeps : ∀ delay : Duration, delay.isZero = false →
    Delivers calm driver.idle (driver.sleep delay)
  classifies : ∀ error, Calmly calm (driver.classify error)
  logs : ∀ report, Calmly calm (driver.log report)
  acts : ∀ number < action.calls, Delivers calm driver.idle (action.call (number + 1))

/-- Calls, answers and requests, without looks at the token, polls and log lines. -/
def Deed.isDealing : Deed S I O E T → Bool
  | checked _ | polled _ | reported _ => false
  | _ => true

abbrev Deals (traced : Traced ε σ (Deed S I O E T) α) (world : σ) (value : α) (after : σ)
    (told : List (Deed S I O E T)) : Prop :=
  Leads Deed.isDealing traced world value after told

/-- The plain run and the watched one come to the same end, and deal as `told` on the way. -/
structure Shows (plain : EStateM ε σ α) (traced : Traced ε σ (Deed S I O E T) α) (world : σ)
    (value : α) (after : σ) (told : List (Deed S I O E T)) : Prop where
  plain : plain world = .ok value after
  traced : Deals traced world value after told

theorem Shows.of_erase {plain : EStateM ε σ α} {traced : Traced ε σ (Deed S I O E T) α} {world : σ}
    {value : α} {after : σ} {told : List (Deed S I O E T)} (erased : traced.erase = plain)
    (dealt : Deals traced world value after told) : Shows plain traced world value after told :=
  ⟨erased ▸ dealt.erase, dealt⟩

namespace Undisturbed

variable {flag : σ → Bool} {calm : σ → Prop} {driver : Driver (EStateM ε σ) E}
  {action : Action (EStateM ε σ) E T} {world : σ}

theorem goes_on (undisturbed : Undisturbed flag calm driver action) (peace : calm world)
    {stop go : Traced ε σ (Deed S I O E T) α} {value : α} {after : σ}
    {told : List (Deed S I O E T)} (dealt : Deals go world value after told) :
    Deals (do if ← (driver.watched flag).cancelled then stop else go) world value after told := by
  have looked := undisturbed.token world
  rw [undisturbed.active world peace] at looked
  have shown : Deals ((driver.watched flag).cancelled : Traced ε σ (Deed S I O E T) Bool) world
      false world [] := Leads.record looked
  exact shown.bind dealt

theorem classify_deals (undisturbed : Undisturbed flag calm driver action) (peace : calm world)
    (error : E) :
    ∃ severity after, calm after ∧
      Deals ((driver.watched flag).classify error : Traced ε σ (Deed S I O E T) Severity) world
        severity after [.classified error severity] := by
  obtain ⟨severity, after, ran, calmAfter⟩ := undisturbed.classifies error world peace
  exact ⟨severity, after, calmAfter, Leads.record ran⟩

theorem log_deals (undisturbed : Undisturbed flag calm driver action) (peace : calm world)
    (report : Report) :
    ∃ after, calm after ∧
      Deals ((driver.watched flag).log report : Traced ε σ (Deed S I O E T) Unit) world () after
        [] := by
  obtain ⟨_, after, ran, calmAfter⟩ := undisturbed.logs report world peace
  exact ⟨after, calmAfter, Leads.record ran⟩

theorem race_deals (undisturbed : Undisturbed flag calm driver action)
    (answered : α → List (Deed S I O E T)) (work : Work (EStateM ε σ) α)
    (completes : work.Completes calm driver.idle) (peace : calm world) :
    ∃ value after, calm after ∧
      Deals ((driver.watched flag).race (work.watched flag answered)) world (some value) after
        ((answered value).filter Deed.isDealing) := by
  induction work generalizing world with
  | ready poll =>
      obtain ⟨value, after, ran, calmAfter⟩ := completes world peace
      refine ⟨value, after, calmAfter, undisturbed.goes_on peace ?_⟩
      have polled : Deals (record (fun world => [.polled (flag world)]) answered poll) world value
          after ((answered value).filter Deed.isDealing) := Leads.record ran
      exact polled.bind_pure rfl
  | pending poll rest ih =>
      obtain ⟨polls, completes⟩ := completes
      obtain ⟨value, after, ran, calmAfter⟩ | ⟨wake, middle, next, ran, paused, calmNext⟩ :=
        polls world peace
      · refine ⟨value, after, calmAfter, undisturbed.goes_on peace ?_⟩
        have polled : Deals (record (fun world => [.polled (flag world)])
            (Sum.elim (fun _ => []) answered) poll) world (.inr value) after
            ((answered value).filter Deed.isDealing) := Leads.record ran
        exact polled.bind_pure rfl
      · obtain ⟨value, after, calmAfter, raced⟩ := ih completes calmNext
        refine ⟨value, after, calmAfter, undisturbed.goes_on peace ?_⟩
        have polled : Deals (record (fun world => [.polled (flag world)])
            (Sum.elim (fun _ => []) answered) poll) world (.inl wake) middle [] := Leads.record ran
        have idled : Deals ((driver.watched flag).idle wake : Traced ε σ (Deed S I O E T) Unit)
            middle () next [] := Leads.record paused
        exact polled.bind (idled.bind raced)

theorem ordered_deals (undisturbed : Undisturbed flag calm driver action) (peace : calm world)
    (deed : σ → Deed S I O E T) (answered : α → List (Deed S I O E T))
    {order : EStateM ε σ (Work (EStateM ε σ) α)} (delivers : Delivers calm driver.idle order) :
    ∃ value after, calm after ∧
      Deals (Work.ordered flag deed answered order >>= (driver.watched flag).race) world
        (some value) after ((deed world :: answered value).filter Deed.isDealing) := by
  obtain ⟨work, middle, ordered, calmMiddle, completes⟩ := delivers world peace
  obtain ⟨value, after, calmAfter, raced⟩ :=
    undisturbed.race_deals answered work completes calmMiddle
  have recorded : Deals (record (fun world => [deed world]) (fun _ => []) order) world work middle
      ([deed world].filter Deed.isDealing) := Leads.record ordered
  have placed : Deals (Work.ordered flag deed answered order) world
      (work.watched flag answered) middle ([deed world].filter Deed.isDealing) :=
    recorded.bind_pure rfl
  refine ⟨value, after, calmAfter, ?_⟩
  simpa [← List.filter_append] using placed.bind raced

theorem attempt_deals (undisturbed : Undisturbed flag calm driver action) (peace : calm world)
    {made : Nat} (scripted : made < action.calls) :
    ∃ result after, calm after ∧
      Deals ((driver.watched flag).attempt made ((action.watched flag).call (made + 1)) :
          Traced ε σ (Deed S I O E T) (Option (Except E T))) world (some result) after
        [.called (made + 1) false, .finished result] := by
  obtain ⟨result, after, calmAfter, raced⟩ := undisturbed.ordered_deals (S := S) (I := I) (O := O)
    peace (fun world => .called (made + 1) (flag world)) (fun result => [.finished result])
    (undisturbed.acts made scripted)
  refine ⟨result, after, calmAfter, undisturbed.goes_on peace ?_⟩
  rw [undisturbed.active world peace] at raced
  rw [← bind_assoc]
  exact raced.bind_pure rfl

theorem wait_deals (undisturbed : Undisturbed flag calm driver action) (peace : calm world)
    (made : Nat) (delay : Duration) :
    ∃ after, calm after ∧
      Deals ((driver.watched flag).wait made delay : Traced ε σ (Deed S I O E T) Bool) world true
        after (if delay.isZero then [] else [.requested delay]) := by
  by_cases zero : delay.isZero = true
  · exact ⟨world, peace, by simpa [Driver.wait, zero] using Leads.pure⟩
  · have positive : delay.isZero = false := by simpa using zero
    obtain ⟨_, after, calmAfter, raced⟩ := undisturbed.ordered_deals (S := S) (I := I) (O := O)
      (T := T) peace (fun _ => .requested delay) (fun _ => []) (undisturbed.sleeps delay positive)
    refine ⟨after, calmAfter, ?_⟩
    simp only [Driver.wait, positive, Bool.false_eq_true, ↓reduceIte]
    rw [← bind_assoc]
    exact raced.bind_pure rfl

theorem conclude_deals (undisturbed : Undisturbed flag calm driver action) (peace : calm world)
    (report : Report) (value : α) :
    ∃ after, calm after ∧
      Deals (do
          (driver.watched flag).log report
          return value : Traced ε σ (Deed S I O E T) α) world value after [] := by
  obtain ⟨after, calmAfter, logged⟩ :=
    undisturbed.log_deals (S := S) (I := I) (O := O) (T := T) peace report
  exact ⟨after, calmAfter, logged.bind_pure rfl⟩

theorem go_on_deals (undisturbed : Undisturbed flag calm driver action) (peace : calm world)
    (report : Report) (made : Nat) (delay : Duration) (rest stop : Traced ε σ (Deed S I O E T) α) :
    ∃ after, calm after ∧
      Reaches Deed.isDealing (do
          (driver.watched flag).log report
          if ← (driver.watched flag).wait made delay then rest else stop) world rest after
        (if delay.isZero then [] else [.requested delay]) := by
  obtain ⟨reported, calmReported, logged⟩ :=
    undisturbed.log_deals (S := S) (I := I) (O := O) (T := T) peace report
  obtain ⟨after, calmAfter, waited⟩ :=
    undisturbed.wait_deals (S := S) (I := I) (O := O) (T := T) calmReported made delay
  exact ⟨after, calmAfter, (logged.reaches _).trans (waited.reaches _)⟩

end Undisturbed
end Cadence
