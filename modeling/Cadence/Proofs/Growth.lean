import Cadence.Backoff
import Mathlib.Data.Nat.Fib.Basic

/-!
Growing delays. Linear and Fibonacci curves give the exact multiple of their base up to a limit: the
last cap that was set, or else the longest duration. The loop of the Fibonacci curve gives up only
where the exact product is past the longest duration too, and none of its sums and products stops at
the greatest wide count.
-/
namespace Cadence

open Duration (maxNanos)

namespace Backoff

/-- The delays are those of an exact sequence, stopped at a limit. -/
structure Grows (backoff : Backoff) (exact : Nat → Nat) (limit : Duration) : Prop where
  delay : ∀ step, (backoff.delay step).nanos = min (exact step) limit.nanos
  ascends : ∀ {step later : Nat}, step ≤ later → backoff.delay step ≤ backoff.delay later
  within : ∀ step, backoff.delay step ≤ limit

theorem eq_of_withMax {backoff capped : Backoff} {cap : Duration}
    (taken : backoff.withMax cap = .ok capped) : capped = { backoff with cap := some cap } := by
  rw [withMax] at taken
  split at taken
  · cases taken
  · split at taken
    · cases taken
    · split at taken
      · cases taken
      · cases taken
        rfl

theorem eq_of_withMax_each {caps : List Duration} {backoff capped : Backoff}
    (taken : caps.foldlM withMax backoff = .ok capped) :
    capped = { backoff with cap := caps.getLast?.or backoff.cap } := by
  induction caps generalizing backoff with
  | nil =>
      cases taken
      rfl
  | cons cap caps ih =>
      rw [List.foldlM_cons] at taken
      cases first : backoff.withMax cap with
      | error cause =>
          rw [first] at taken
          cases taken
      | ok middle =>
          rw [first] at taken
          have later := ih taken
          rw [eq_of_withMax first] at later
          rw [later, List.getLast?_cons]
          cases caps.getLast? <;> rfl

theorem nanos_delay (backoff : Backoff) (step : Nat) :
    (backoff.delay step).nanos =
      min (backoff.curve.delay step).nanos (backoff.cap.getD .longest).nanos := by
  rw [delay]
  cases backoff.cap with
  | none =>
      have short := (backoff.curve.delay step).nanos_le
      rw [Option.getD_none, Duration.nanos_longest, Nat.min_eq_left short]
  | some cap => rw [Option.getD_some, Duration.nanos_min]

theorem grows_of_curve {curve : Curve} {exact : Nat → Nat} {caps : List Duration}
    {backoff : Backoff} (taken : caps.foldlM withMax ⟨curve, none⟩ = .ok backoff)
    (saturates : ∀ step, (curve.delay step).nanos = min (exact step) maxNanos)
    (ascends : Monotone exact) : backoff.Grows exact (caps.getLast?.getD .longest) := by
  have same : backoff = ⟨curve, caps.getLast?⟩ := by
    rw [eq_of_withMax_each taken, Option.or_none]
  have delays : ∀ step,
      (backoff.delay step).nanos = min (exact step) (caps.getLast?.getD .longest).nanos := by
    intro step
    have short := (caps.getLast?.getD .longest).nanos_le
    simp only [same, nanos_delay, saturates]
    omega
  constructor
  · exact delays
  · intro step later before
    have grown := ascends before
    change (backoff.delay step).nanos ≤ (backoff.delay later).nanos
    rw [delays, delays]
    omega
  · intro step
    change (backoff.delay step).nanos ≤ _
    rw [delays]
    omega

end Backoff

namespace Curve

theorem nanos_linear (base : Duration) (step : Nat) :
    ((linear base).delay step).nanos = min (base.nanos * (step + 1)) maxNanos := by
  have wider := Duration.maxNanos_le_greatest
  have count : (Wide.ofNat (step + 1)).count = min (step + 1) Wide.greatest := rfl
  simp only [delay, Wide.times?, Duration.count_wide]
  by_cases few : step + 1 ≤ Wide.greatest
  · rw [count, Nat.min_eq_left few]
    by_cases fits : base.nanos * (step + 1) ≤ Wide.greatest
    · simp only [fits, ↓reduceDIte, Duration.nanos_ofWide]
    · simp only [fits, ↓reduceDIte, Duration.nanos_longest]
      omega
  -- A multiple that is no wide count is past the longest duration as well.
  · have many : Wide.greatest ≤ step + 1 := Nat.le_of_not_le few
    rw [count, Nat.min_eq_right many]
    rcases Nat.eq_zero_or_pos base.nanos with zero | positive
    · simp [zero, Duration.nanos_ofWide]
    · have whole : Wide.greatest ≤ base.nanos * (step + 1) :=
        Nat.le_trans many (Nat.le_mul_of_pos_left _ positive)
      by_cases fits : base.nanos * Wide.greatest ≤ Wide.greatest
      · have least : Wide.greatest ≤ base.nanos * Wide.greatest :=
          Nat.le_mul_of_pos_left _ positive
        simp only [fits, ↓reduceDIte, Duration.nanos_ofWide]
        omega
      · simp only [fits, ↓reduceDIte, Duration.nanos_longest]
        omega

end Curve

inductive Climbs (unit : Wide) (steps : Nat) :
    (left : Nat) → (current following : Wide) → Prop where
  | start : Climbs unit steps steps (.ofNat 1) (.ofNat 2)
  | next {left : Nat} {current following : Wide} :
      Climbs unit steps (left + 1) current following →
      ¬Duration.longest.wide ≤ unit * current →
        Climbs unit steps left following (current + following)

/-- The loop holds neighbours of the Fibonacci sequence, and has not passed the limit by more than
one round. -/
structure OnTrack (unit : Wide) (steps left : Nat) (current following : Wide) : Prop where
  passed : left ≤ steps
  lower : current.count = Nat.fib (steps - left + 2)
  upper : following.count = Nat.fib (steps - left + 3)
  product : unit.count * current.count ≤ 2 * maxNanos

/-- Nothing that the loop computes here stops at the greatest wide count, and it gives up only if
the exact product does reach the longest duration. -/
structure Unsaturated (unit : Wide) (steps left : Nat) (current following : Wide) : Prop where
  product : (unit * current).count = unit.count * current.count
  sum : ¬Duration.longest.wide ≤ unit * current →
    (current + following).count = current.count + following.count
  givesUp : Duration.longest.wide ≤ unit * current → maxNanos ≤ unit.count * Nat.fib (steps + 2)

theorem fib_succ_le_double (place : Nat) : Nat.fib (place + 3) ≤ 2 * Nat.fib (place + 2) := by
  have split : Nat.fib (place + 3) = Nat.fib (place + 1) + Nat.fib (place + 2) := Nat.fib_add_two
  have below : Nat.fib (place + 1) ≤ Nat.fib (place + 2) := Nat.fib_le_fib_succ
  omega

namespace OnTrack

variable {unit : Wide} {steps left : Nat} {current following : Wide}

theorem start (short : unit.count ≤ maxNanos) : OnTrack unit steps steps (.ofNat 1) (.ofNat 2) := by
  constructor
  · exact Nat.le_refl steps
  · rw [Nat.sub_self]
    rfl
  · rw [Nat.sub_self]
    rfl
  · have one : (Wide.ofNat 1).count = 1 := rfl
    rw [one]
    omega

theorem room : 4 * maxNanos ≤ Wide.greatest := by decide

theorem unsaturated (onTrack : OnTrack unit steps left current following)
    (positive : 0 < unit.count) : Unsaturated unit steps left current following := by
  have room := room
  have reached := onTrack.product
  have product : (unit * current).count = unit.count * current.count := by
    rw [Wide.count_mul]
    omega
  have limit : Duration.longest.wide ≤ unit * current ↔ maxNanos ≤ unit.count * current.count := by
    change Duration.longest.nanos ≤ (unit * current).count ↔ _
    rw [product, Duration.nanos_longest]
  constructor
  · exact product
  · intro goesOn
    have below := Nat.lt_of_not_le (limit.not.mp goesOn)
    have least : current.count ≤ unit.count * current.count :=
      Nat.le_mul_of_pos_left _ positive
    have double : following.count ≤ 2 * current.count := by
      rw [onTrack.lower, onTrack.upper]
      exact fib_succ_le_double (steps - left)
    rw [Wide.count_add]
    omega
  · intro stops
    have later : Nat.fib (steps - left + 2) ≤ Nat.fib (steps + 2) :=
      Nat.fib_mono (by omega)
    calc
      maxNanos ≤ unit.count * current.count := limit.mp stops
      _ = unit.count * Nat.fib (steps - left + 2) := by rw [onTrack.lower]
      _ ≤ unit.count * Nat.fib (steps + 2) := Nat.mul_le_mul_left _ later

theorem next (onTrack : OnTrack unit steps (left + 1) current following) (positive : 0 < unit.count)
    (goesOn : ¬Duration.longest.wide ≤ unit * current) :
    OnTrack unit steps left following (current + following) := by
  have unsaturated := onTrack.unsaturated positive
  have passed := onTrack.passed
  have place : steps - left = steps - (left + 1) + 1 := by omega
  have double : following.count ≤ 2 * current.count := by
    rw [onTrack.lower, onTrack.upper]
    exact fib_succ_le_double (steps - (left + 1))
  have below : unit.count * current.count < maxNanos := by
    have short : ¬Duration.longest.nanos ≤ (unit * current).count := goesOn
    rw [unsaturated.product, Duration.nanos_longest] at short
    omega
  constructor
  · omega
  · rw [onTrack.upper, place]
  · rw [unsaturated.sum goesOn, onTrack.lower, onTrack.upper, place]
    exact Nat.fib_add_two.symm
  · calc
      unit.count * following.count ≤ unit.count * (2 * current.count) :=
        Nat.mul_le_mul_left _ double
      _ = 2 * (unit.count * current.count) := Nat.mul_left_comm ..
      _ ≤ 2 * maxNanos := by omega

theorem nanos_climb (onTrack : OnTrack unit steps left current following)
    (positive : 0 < unit.count) :
    (climb unit left current following).nanos =
      min (unit.count * Nat.fib (steps + 2)) maxNanos := by
  induction left generalizing current following with
  | zero =>
      have product := (onTrack.unsaturated positive).product
      have longest : Duration.longest.wide.count = maxNanos := Duration.nanos_longest
      rw [climb, Duration.nanos_ofWide, Wide.count_min, product, longest, onTrack.lower,
        Nat.sub_zero]
      omega
  | succ left ih =>
      rw [climb]
      split
      next stops =>
        have reached := (onTrack.unsaturated positive).givesUp stops
        rw [Duration.nanos_longest, Nat.min_eq_right reached]
      next goesOn => exact ih (onTrack.next positive goesOn)

end OnTrack

namespace Climbs

variable {unit : Wide} {steps left : Nat} {current following : Wide}

theorem climb_eq (climbs : Climbs unit steps left current following) :
    climb unit steps (.ofNat 1) (.ofNat 2) = climb unit left current following := by
  induction climbs with
  | start => rfl
  | next _ goesOn ih => rw [ih, climb, if_neg goesOn]

theorem onTrack (climbs : Climbs unit steps left current following) (positive : 0 < unit.count)
    (short : unit.count ≤ maxNanos) : OnTrack unit steps left current following := by
  induction climbs with
  | start => exact .start short
  | next _ goesOn ih => exact ih.next positive goesOn

end Climbs

theorem Curve.nanos_fibonacci (base : Duration) (step : Nat) :
    ((Curve.fibonacci base).delay step).nanos =
      min (base.nanos * Nat.fib (step + 2)) maxNanos := by
  rw [Curve.delay]
  split
  next zero =>
    have none : base.nanos = 0 := by simpa [Duration.isZero] using zero
    rw [Duration.nanos_zero, none, Nat.zero_mul, Nat.zero_min]
  next some =>
    have positive : 0 < base.wide.count := by
      simp only [Duration.isZero, beq_iff_eq] at some
      exact Nat.pos_of_ne_zero some
    exact (OnTrack.start base.nanos_le).nanos_climb positive

structure ClimbsExactly (base : Duration) (steps left : Nat) (current following : Wide) : Prop where
  run : (Curve.fibonacci base).delay steps = climb base.wide left current following
  onTrack : OnTrack base.wide steps left current following
  unsaturated : Unsaturated base.wide steps left current following

/-- `Nat.fib` counts from 1, 1, so the sequence 1, 2, 3, 5 starts at its second place. -/
theorem growing_delays_exact (base : Duration) :
    (∀ caps backoff, List.foldlM Backoff.withMax (.linear base) caps = .ok backoff →
      backoff.Grows (fun step => base.nanos * (step + 1)) (caps.getLast?.getD .longest)) ∧
    (∀ caps backoff, List.foldlM Backoff.withMax (.fibonacci base) caps = .ok backoff →
      backoff.Grows (fun step => base.nanos * Nat.fib (step + 2)) (caps.getLast?.getD .longest)) ∧
    (0 < base.nanos → ∀ steps left current following,
      Climbs base.wide steps left current following →
        ClimbsExactly base steps left current following) := by
  refine ⟨?_, ?_, ?_⟩
  · intro caps backoff taken
    apply Backoff.grows_of_curve taken (Curve.nanos_linear base)
    intro step later before
    exact Nat.mul_le_mul_left _ (by omega)
  · intro caps backoff taken
    apply Backoff.grows_of_curve taken (Curve.nanos_fibonacci base)
    intro step later before
    exact Nat.mul_le_mul_left _ (Nat.fib_mono (by omega))
  · intro positive steps left current following climbs
    have onTrack := climbs.onTrack positive base.nanos_le
    have some : ¬base.isZero = true := by
      simp only [Duration.isZero, beq_iff_eq]
      omega
    constructor
    · rw [Curve.delay, if_neg some]
      exact climbs.climb_eq
    · exact onTrack
    · exact onTrack.unsaturated positive

theorem growing_delays_exact_capped :
    ∃ backoff,
      List.foldlM Backoff.withMax (.fibonacci (.seconds 2)) [.seconds 4, .seconds 7] =
        .ok backoff ∧
      (backoff.delay 2).nanos = min (2000000000 * 3) 7000000000 := by
  refine ⟨_, rfl, ?_⟩
  have grows := (growing_delays_exact (.seconds 2)).2.1 [.seconds 4, .seconds 7] _ rfl
  exact grows.delay 2

end Cadence
