import Cadence.Proofs.Factor
import Cadence.Proofs.Outcome
import Cadence.Schedule.Transform
import Cadence.Session

namespace Cadence

def Decision.retime {κ O : Type} (change : Duration → Duration) : Decision κ O → Decision κ O
  | done output => done output
  | proceed output delay next => proceed output (change delay) next

namespace Schedule

variable {σ I O : Type} {schedule : Schedule (EStateM Fault σ) I O}
  (draw : EStateM Fault σ UInt64) {state : schedule.State} {input : I} {world after : σ}
  {low high : Binary64}

theorem jittered_step_done {output : O}
    (stepped : schedule.step state input world = .ok (.done output) after) (low high : Binary64) :
    (schedule.jittered low high draw).step state input world = .ok (.done output) after :=
  bind_of_ok stepped _

section Proceed

variable {output : O} {delay : Duration} {next : schedule.State}
  (stepped : schedule.step state input world = .ok (.proceed output delay next) after)

include stepped

theorem jittered_step_proceed (low high : Binary64) :
    (schedule.jittered low high draw).step state input world = (do
      let factor ← Random.factor draw low high
      return .proceed output (delay.scale factor) next : EStateM Fault σ (Decision _ O)) after := by
  refine (bind_of_ok stepped _).trans ?_
  simp only [bind_assoc, pure_bind]

theorem jittered_step_improper (improper : Improper low high) :
    (schedule.jittered low high draw).step state input world =
      .ok (.proceed output (delay.scale low) next) after := by
  rw [jittered_step_proceed draw stepped, Random.factor_of_improper draw improper]
  rfl

theorem jittered_step_proper (proper : Proper low high) {word : UInt64} {reached : σ}
    (drawn : draw after = .ok word reached) :
    (schedule.jittered low high draw).step state input world =
      .ok (.proceed output (delay.scale (Random.fraction word * (high - low) + low)) next)
        reached := by
  rw [jittered_step_proceed draw stepped, Random.factor_of_proper draw proper, bind_assoc,
    bind_of_ok drawn]
  rfl

theorem jittered_step_tooWide (wide : TooWide low high) :
    (schedule.jittered low high draw).step state input world = .error .rangeTooWide after := by
  rw [jittered_step_proceed draw stepped, Random.factor_of_tooWide draw wide]
  rfl

end Proceed

/-- Whether jittered steps answer. They do for all ranges but the ones that are too wide, and for
those too where the step is the last one. -/
theorem jittered_step_answers_iff {decision : Decision schedule.State O}
    (stepped : schedule.step state input world = .ok decision after) {word : UInt64} {reached : σ}
    (drawn : draw after = .ok word reached) (low high : Binary64) :
    ((∃ shown left, (schedule.jittered low high draw).step state input world = .ok shown left) ↔
      decision.isDone = true ∨ ¬TooWide low high) ∧
    (decision.isDone = true →
      (schedule.jittered low high draw).step state input world = .ok decision after) ∧
    (Improper low high →
      (schedule.jittered low high draw).step state input world =
        .ok (decision.retime (·.scale low)) after) ∧
    (Proper low high → decision.isDone = false →
      (schedule.jittered low high draw).step state input world =
        .ok (decision.retime (·.scale (Random.fraction word * (high - low) + low))) reached) ∧
    (TooWide low high → decision.isDone = false →
      (schedule.jittered low high draw).step state input world = .error .rangeTooWide after) := by
  cases decision with
  | done output =>
      have same := jittered_step_done draw stepped low high
      exact ⟨⟨fun _ => .inl rfl, fun _ => ⟨_, _, same⟩⟩, fun _ => same, fun _ => same, nofun, nofun⟩
  | proceed output delay next =>
      have improper (range : Improper low high) := jittered_step_improper draw stepped range
      have proper (range : Proper low high) := jittered_step_proper draw stepped range drawn
      have tooWide (range : TooWide low high) := jittered_step_tooWide draw stepped range
      refine ⟨?_, nofun, improper, fun range _ => proper range, fun range _ => tooWide range⟩
      rcases improper_or_tooWide_or_proper low high with range | range | range
      · exact iff_of_true ⟨_, _, improper range⟩ (.inr range.not_tooWide)
      · rw [tooWide range]
        simp [Decision.isDone, range]
      · exact iff_of_true ⟨_, _, proper range⟩ (.inr range.not_tooWide)

theorem jittered_step_answers_iff_spaced :
    let schedule : Schedule Effect Unit Nat := spaced (.millis 5)
    let session : Session := { sources := [.ofList [.bits 0]] }
    (∃ decision after, schedule.step schedule.start () session = .ok decision after ∧
      ∃ word reached, Session.draw 0 after = .ok word reached) ∧
    ∃ shown left, (schedule.jittered (.ofDecimal true 8 307) (.ofDecimal false 8 307)
      (Session.draw 0)).step schedule.start () session = .ok shown left := by
  have narrow : ¬TooWide (.ofDecimal true 8 307) (.ofDecimal false 8 307) := by
    rw [tooWide_iff]
    decide +kernel
  refine ⟨⟨_, _, rfl, _, _, rfl⟩, ?_⟩
  exact (jittered_step_answers_iff (Session.draw 0) rfl rfl _ _).1.mpr (.inr narrow)

theorem tooWide_opposite : TooWide (.ofDecimal true 1 308) (.ofDecimal false 1 308) := by
  rw [tooWide_iff]
  decide +kernel

/-- Both bounds are finite, the step goes on and there is a word to draw. -/
theorem jittered_step_breaks_off :
    let schedule : Schedule Effect Unit Nat := spaced (.millis 5)
    let session : Session := { sources := [.ofList [.bits 0]] }
    (∃ decision after, schedule.step schedule.start () session = .ok decision after ∧
      ∃ word reached, Session.draw 0 after = .ok word reached) ∧
    (schedule.jittered (.ofDecimal true 1 308) (.ofDecimal false 1 308) (Session.draw 0)).step
      schedule.start () session = .error .rangeTooWide session := by
  refine ⟨⟨_, _, rfl, _, _, rfl⟩, ?_⟩
  exact jittered_step_tooWide (Session.draw 0) rfl tooWide_opposite

end Schedule
end Cadence
