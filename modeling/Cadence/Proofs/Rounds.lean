import Cadence.Proofs.Calm

namespace Cadence

variable {ε σ S I O E T : Type}

structure Round (S I O : Type) where
  input : I
  output : O
  delay : Duration
  next : S

namespace Round

def decision (round : Round S I O) : Decision S O :=
  .proceed round.output round.delay round.next

def waited (round : Round S I O) : List (Deed S I O E T) :=
  if round.delay.isZero then [] else [.requested round.delay]

end Round

namespace Schedule

variable (schedule : Schedule (EStateM ε σ) I O)

/-- The schedule gives this decision in some world. -/
def Answers (state : schedule.State) (input : I) (decision : Decision schedule.State O) : Prop :=
  ∃ world after, schedule.step state input world = .ok decision after

inductive Follows : schedule.State → List (Round schedule.State I O) → schedule.State → Prop where
  | nil (state : schedule.State) : Follows state [] state
  | cons {state final : schedule.State} {round : Round schedule.State I O}
      {rounds : List (Round schedule.State I O)} :
      schedule.Answers state round.input round.decision → Follows round.next rounds final →
        Follows state (round :: rounds) final

def Steady (calm : σ → Prop) : Prop :=
  ∀ state input, Calmly calm (schedule.step state input)

variable {schedule} {calm : σ → Prop}

theorem steady_of_pure {plan : schedule.State → I → Decision schedule.State O}
    (planned : ∀ state input, schedule.step state input = pure (plan state input)) :
    schedule.Steady calm := by
  intro state input world peace
  exact ⟨plan state input, world, by rw [planned]; rfl, peace⟩

theorem step_deals (steady : schedule.Steady calm) {world : σ} (peace : calm world)
    (state : schedule.State) (input : I) :
    ∃ decision after, calm after ∧ schedule.Answers state input decision ∧
      Deals (schedule.watched.step state input :
          Traced ε σ (Deed schedule.State I O E T) (Decision schedule.State O)) world decision after
        [.stepped state input decision] := by
  obtain ⟨decision, after, ran, calmAfter⟩ := steady state input world peace
  exact ⟨decision, after, calmAfter, ⟨world, after, ran⟩, Traced.Leads.record ran⟩

end Schedule
end Cadence
