import Cadence.Backoff
import Cadence.Proofs.Rounding

namespace Cadence

open Binary64 (Short nearest ofNat)
open Duration (maxNanos)

namespace Duration

theorem nearest_maxNanos : nearest maxNanos 1 = maxNanos + 1 := by decide +kernel

theorem double_maxNanos_lt : 2 * maxNanos < 1 <<< 1024 := by decide +kernel

theorem nearest_nanos_lt (base : Duration) : nearest base.nanos 1 < 1 <<< 1024 := by
  have double := Binary64.nearest_le_double base.nanos
  have short := base.nanos_le
  have range := double_maxNanos_lt
  omega

/-- The longest duration, as a double, lies one nanosecond too high. -/
theorem longest_le_iff {product : Nat} (short : Short product) :
    (ofNat maxNanos).le (ofNat product) = true ↔ maxNanos < product := by
  have longest := Binary64.position_ofNat maxNanos
  have place := Binary64.position_ofNat product
  rw [nearest_maxNanos] at longest
  rw [Binary64.nearest_of_short short] at place
  rw [Binary64.le_of_position longest place, decide_eq_true_iff, Int.ofNat_le]
  have range : (maxNanos + 1) * Binary64.one < Binary64.ceiling := by
    have inside := double_maxNanos_lt
    rw [Binary64.ceiling_eq]
    exact Nat.mul_lt_mul_of_pos_right (by omega) Binary64.one_pos
  have order : (maxNanos + 1) * Binary64.one ≤ product * Binary64.one ↔ maxNanos < product :=
    Nat.mul_le_mul_right_iff Binary64.one_pos
  omega

section Scale

variable {base : Duration} {factor : Binary64} {negative : Bool}

theorem scale_of_finite {units : Nat} {representable : Binary64.Representable units}
    (some : base.isZero = false) (growing : (Binary64.signedZero false).lt factor = true)
    (product : ofNat base.nanos * factor = .finite negative units representable) :
    base.scale factor =
      if (ofNat maxNanos).le (ofNat base.nanos * factor) then .longest
      else ofWide (.ofNat ((units + Binary64.one / 2) / Binary64.one)) := by
  rw [scale, some, growing, Bool.not_true, Bool.or_self, if_neg Bool.false_ne_true]
  simp only [product]

theorem scale_of_infinite (some : base.isZero = false)
    (growing : (Binary64.signedZero false).lt factor = true)
    (product : ofNat base.nanos * factor = .infinite negative) : base.scale factor = .longest := by
  rw [scale, some, growing, Bool.not_true, Bool.or_self, if_neg Bool.false_ne_true, product]

theorem nanos_scale {product : Nat} (positive : 0 < base.nanos)
    (growing : (Binary64.signedZero false).lt factor = true) (short : Short product)
    (result : ofNat base.nanos * factor = ofNat product) :
    (base.scale factor).nanos = min product maxNanos := by
  have some : base.isZero = false := by
    rw [isZero, beq_eq_false_iff_ne]
    exact Nat.ne_of_gt positive
  have same := Binary64.nearest_of_short short
  by_cases inside : nearest product 1 < 1 <<< 1024
  · obtain ⟨_, number⟩ := Binary64.ofNat_of_lt inside
    have reached := longest_le_iff short
    have half : Binary64.one / 2 < Binary64.one :=
      Nat.div_lt_self Binary64.one_pos Nat.one_lt_two
    have whole : (product * Binary64.one + Binary64.one / 2) / Binary64.one = product := by
      rw [Nat.mul_comm, Nat.mul_add_div Binary64.one_pos, Nat.div_eq_of_lt half, Nat.add_zero]
    rw [scale_of_finite some growing (result.trans number), result, same, whole, ofWide_ofNat]
    by_cases beyond : maxNanos < product
    · rw [if_pos (reached.mpr beyond), nanos_longest]
      omega
    · rw [if_neg (mt reached.mp beyond)]
      rfl
  · have outside := Nat.le_of_not_lt inside
    have range := double_maxNanos_lt
    have number := Binary64.ofNat_of_le outside
    rw [scale_of_infinite some growing (result.trans number), nanos_longest]
    omega

end Scale

end Duration

namespace Backoff

theorem maxNanos_lt_two_pow {exponent : Nat} (many : 94 ≤ exponent) :
    maxNanos < 2 ^ exponent := by
  have last : maxNanos < 2 ^ 94 := by decide
  exact Nat.lt_of_lt_of_le last (Nat.pow_le_pow_right Nat.two_pos many)

theorem min_exponent {rounded : Nat} (positive : 0 < rounded) (step : Nat) :
    min (rounded * 2 ^ min step Curve.maxExponent) maxNanos =
      min (rounded * 2 ^ step) maxNanos := by
  have many : 94 ≤ Curve.maxExponent := by decide
  rcases Nat.le_total step Curve.maxExponent with fewer | more
  · rw [Nat.min_eq_left fewer]
  · have reached {exponent : Nat} (large : 94 ≤ exponent) : maxNanos ≤ rounded * 2 ^ exponent :=
      Nat.le_trans (Nat.le_of_lt (maxNanos_lt_two_pow large)) (Nat.le_mul_of_pos_left _ positive)
    have capped := reached many
    have free := reached (Nat.le_trans many more)
    rw [Nat.min_eq_right more, Nat.min_eq_right capped, Nat.min_eq_right free]

theorem nanos_delay_exponential (base : Duration) (step : Nat) :
    ((exponential base).delay step).nanos = min (nearest base.nanos 1 * 2 ^ step) maxNanos := by
  rcases Nat.eq_zero_or_pos base.nanos with none | positive
  · have zero : base.isZero = true := by rw [Duration.isZero, none, beq_self_eq_true]
    have rounded := Binary64.nearest_of_short (Binary64.short_of_lt (Nat.two_pow_pos 53))
    have guarded : base.scale ((ofNat 2).pow (min step Curve.maxExponent)) = .zero := by
      rw [Duration.scale, zero, Bool.true_or, if_pos rfl]
    rw [none, rounded, Nat.zero_mul, Nat.zero_min]
    exact (congrArg Duration.nanos guarded).trans Duration.nanos_zero
  · have power := Nat.two_pow_pos (min step Curve.maxExponent)
    have product : ofNat base.nanos * ofNat (2 ^ min step Curve.maxExponent) =
        ofNat (nearest base.nanos 1 * 2 ^ min step Curve.maxExponent) :=
      Binary64.ofNat_mul_two_pow positive base.nearest_nanos_lt
    have short := (Binary64.short_nearest base.nanos 1).mul_two_pow (min step Curve.maxExponent)
    have scaled := Duration.nanos_scale positive (Binary64.zero_lt_ofNat power) short product
    rw [min_exponent (Binary64.nearest_pos positive), ← Binary64.pow_two] at scaled
    exact scaled

theorem min_rounded_iff (nanos step : Nat) :
    min (nearest nanos 1 * 2 ^ step) maxNanos = min (nanos * 2 ^ step) maxNanos ↔
      Short nanos ∨ maxNanos ≤ nanos * 2 ^ step ∧ maxNanos ≤ nearest nanos 1 * 2 ^ step := by
  have cancel : nearest nanos 1 * 2 ^ step = nanos * 2 ^ step ↔ Short nanos := by
    rw [Nat.mul_left_inj (Nat.two_pow_pos step).ne', Binary64.nearest_eq_self_iff]
  rw [← cancel]
  omega

/-- The multiple of the base itself, up to the longest duration, is given just where the base has at
most 53 significant bits or both multiples reach the longest duration. -/
theorem exponential_delays_rounded (base : Duration) (step : Nat) :
    ((exponential base).delay step).nanos = min (nearest base.nanos 1 * 2 ^ step) maxNanos ∧
      (((exponential base).delay step).nanos = min (base.nanos * 2 ^ step) maxNanos ↔
        Short base.nanos ∨
          maxNanos ≤ base.nanos * 2 ^ step ∧ maxNanos ≤ nearest base.nanos 1 * 2 ^ step) := by
  have delay := nanos_delay_exponential base step
  constructor
  · exact delay
  · rw [delay]
    exact min_rounded_iff base.nanos step

/-- A base of 54 significant bits already loses its last nanosecond at the first delay. -/
theorem exponential_delay_inexact :
    ((exponential (.ofNanos 9007199254740993)).delay 0).nanos = 9007199254740992 ∧
      min ((Duration.ofNanos 9007199254740993).nanos * 2 ^ 0) maxNanos = 9007199254740993 := by
  rw [nanos_delay_exponential]
  decide +kernel

end Backoff
end Cadence
