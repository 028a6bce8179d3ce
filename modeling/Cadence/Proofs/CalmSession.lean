import Cadence.Proofs.Calm
import Cadence.Scenario

namespace Cadence

/-- Nothing is cancelled, no timer is set, and the horizon is ahead. -/
structure CalmSession (token : Token) (horizon : Nat) (session : Session) : Prop where
  active : token.isCancelled session.cancelled = false
  untimed : session.timer = none
  early : session.clock < horizon

/-- An attempt that finishes without sleeping, however often it gives way before. -/
structure Attempt.Plain (attempt : Attempt) : Prop where
  cancels : attempt.cancels = none
  sleep : attempt.sleep.isZero = true
  endless : attempt.endless = false
  fault : attempt.fault = none

instance (attempt : Attempt) : Decidable attempt.Plain :=
  decidable_of_iff
    (attempt.cancels = none ∧ attempt.sleep.isZero = true ∧ attempt.endless = false ∧
      attempt.fault = none)
    ⟨fun ⟨cancels, sleep, endless, fault⟩ => ⟨cancels, sleep, endless, fault⟩,
      fun plain => ⟨plain.cancels, plain.sleep, plain.endless, plain.fault⟩⟩

def Sleeper.atOnce : Sleeper → Bool
  | instant | tracking => true
  | _ => false

theorem Attempt.find?_of_lt_calls {script : List Attempt} {index : Nat}
    (scripted : index < calls script) : ∃ attempt ∈ script, find? script index = some attempt := by
  induction script generalizing index with
  | nil => exact absurd scripted (Nat.not_lt_zero index)
  | cons attempt script ih =>
      rw [calls] at scripted
      by_cases here : index < attempt.times
      · exact ⟨attempt, List.mem_cons_self, by rw [find?, if_pos here]⟩
      · have later : index - attempt.times < calls script := by omega
        obtain ⟨found, member, answer⟩ := ih later
        exact ⟨found, List.mem_cons_of_mem _ member, by rw [find?, if_neg here, answer]⟩

namespace CalmSession

variable {token : Token} {horizon : Nat} {session : Session}

theorem emit (event : Event) : Calmly (CalmSession token horizon) (Session.emit event) :=
  fun _ calm => ⟨(), _, rfl, calm.active, calm.untimed, calm.early⟩

theorem idle_now (calm : CalmSession token horizon session) :
    Session.idle token horizon .now session = .ok () session := by
  obtain ⟨active, untimed, early⟩ := calm
  have ahead : ¬ horizon ≤ session.clock := Nat.not_le.mpr early
  have reached : session.clock ≤ horizon := Nat.le_of_lt early
  cases session
  simp only at active untimed ahead reached
  subst untimed
  have looked (now : Session) : (get : Effect Session) now = .ok now now := rfl
  have changed (change : Session → Session) (now : Session) :
      (modify change : Effect Unit) now = .ok () (change now) := rfl
  simp [Session.idle, Session.isCancelled, Session.expireTimer, Session.jump, Session.moment?,
    bind, EStateM.bind, pure, EStateM.pure, looked, changed, ahead, reached, active]

theorem yielding_completes {α : Type} {work : Work Effect α}
    (completes : work.Completes (CalmSession token horizon) (Session.idle token horizon))
    (times : Nat) :
    (Work.yielding times work).Completes (CalmSession token horizon)
      (Session.idle token horizon) := by
  induction times with
  | zero => exact completes
  | succ times ih =>
      refine ⟨?_, ih⟩
      intro session calm
      exact Or.inr ⟨.now, session, session, rfl, calm.idle_now, calm⟩

theorem finishes {attempt : Attempt} (sound : attempt.fault = none) (number : Nat) :
    Calmly (CalmSession token horizon) (attempt.finish number) := by
  intro session calm
  obtain ⟨_, after, emitted, calmAfter⟩ := emit (.finish number) session calm
  refine ⟨attempt.result, after, ?_, calmAfter⟩
  simp only [Attempt.finish, bind, EStateM.bind, emitted, sound]
  rfl

theorem body_completes {attempt : Attempt} (plain : attempt.Plain) (number : Nat) :
    (attempt.body token number).Completes (CalmSession token horizon)
      (Session.idle token horizon) := by
  have finish : (Work.ready (attempt.finish number)).Completes (CalmSession token horizon)
      (Session.idle token horizon) := finishes plain.fault number
  simp only [Attempt.body, plain.cancels, plain.endless, Bool.false_eq_true, ↓reduceIte,
    reduceCtorEq]
  split
  · exact finish
  · exact yielding_completes finish (_ + 1)

theorem call_delivers {script : List Attempt} (plain : ∀ attempt ∈ script, attempt.Plain)
    {number : Nat} (scripted : number < Attempt.calls script) :
    Delivers (CalmSession token horizon) (Session.idle token horizon)
      ((scriptedAction script token).call (number + 1)) := by
  intro session calm
  obtain ⟨attempt, member, found⟩ := Attempt.find?_of_lt_calls scripted
  obtain ⟨_, after, emitted, calmAfter⟩ := emit (.attempt (number + 1)) session calm
  have body : (attempt.body token (number + 1)).Completes (CalmSession token horizon)
      (Session.idle token horizon) := body_completes (plain attempt member) (number + 1)
  refine ⟨attempt.body token (number + 1), after, ?_, calmAfter, body⟩
  simp only [scriptedAction, bind, EStateM.bind, emitted, Nat.add_sub_cancel, found, Attempt.call,
    (plain attempt member).cancels, Work.sleeping, (plain attempt member).sleep]
  rfl

theorem sleeper_delivers {sleeper : Sleeper} (prompt : sleeper.atOnce = true) (delay : Duration) :
    Delivers (CalmSession token horizon) (Session.idle token horizon)
      (sleeper.request token delay) := by
  have ready : (Work.ready (pure ())).Completes (CalmSession token horizon)
      (Session.idle token horizon) := fun session calm => ⟨(), session, rfl, calm⟩
  intro session calm
  cases sleeper with
  | instant => exact ⟨_, _, rfl, ⟨calm.active, calm.untimed, calm.early⟩, ready⟩
  | tracking => exact ⟨_, _, rfl, ⟨calm.active, calm.untimed, calm.early⟩, ready⟩
  | _ => exact absurd prompt Bool.false_ne_true

theorem classifies (fatalIf : Option Condition) (error : Value) :
    Calmly (CalmSession token horizon) (classifier fatalIf error) := by
  intro session calm
  cases fatalIf with
  | none => exact ⟨.recoverable, session, rfl, calm⟩
  | some fatalIf => exact ⟨_, _, rfl, calm.active, calm.untimed, calm.early⟩

theorem undisturbed {sleeper : Sleeper} (prompt : sleeper.atOnce = true)
    (fatalIf : Option Condition) {script : List Attempt}
    (plain : ∀ attempt ∈ script, attempt.Plain) :
    Undisturbed (fun session => token.isCancelled session.cancelled) (CalmSession token horizon)
      (Scenario.makeDriver sleeper token fatalIf horizon) (scriptedAction script token) where
  token _ := rfl
  active _ calm := calm.active
  sleeps delay _ := sleeper_delivers prompt delay
  classifies := classifies fatalIf
  logs report := emit (.report report)
  acts _ scripted := call_delivers plain scripted

end CalmSession
end Cadence
