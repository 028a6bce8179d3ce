import Cadence.Proofs.Doubling
import Cadence.Proofs.Position

/-!
Durations multiplied by doubles. What is made of a duration is a function of the rounded product
alone, so a greater factor never makes a shorter one. It reaches the longest duration just where the
rounded product does.
-/
namespace Cadence

open Binary64 (Measures nearest ofNat one ceiling)
open Duration (maxNanos)

namespace Duration

/-- Whole nanoseconds in a magnitude, halves up, but no more than the longest duration has. -/
def wholeNanos (units : Nat) : Nat := min ((units + one / 2) / one) maxNanos

theorem wholeNanos_zero : wholeNanos 0 = 0 := by
  have half : one / 2 < one := Nat.div_lt_self Binary64.one_pos Nat.one_lt_two
  rw [wholeNanos, Nat.zero_add, Nat.div_eq_of_lt half, Nat.zero_min]

theorem wholeNanos_mono {less more : Nat} (ordered : less ≤ more) :
    wholeNanos less ≤ wholeNanos more := by
  have whole : (less + one / 2) / one ≤ (more + one / 2) / one :=
    Nat.div_le_div_right (Nat.add_le_add_right ordered _)
  rw [wholeNanos, wholeNanos]
  omega

def longestUnits : Nat := (maxNanos + 1) * one

theorem longestUnits_lt_ceiling : longestUnits < ceiling := by
  have inside := double_maxNanos_lt
  rw [longestUnits, Binary64.ceiling_eq]
  exact Nat.mul_lt_mul_of_pos_right (by omega) Binary64.one_pos

theorem position_maxNanos : (ofNat maxNanos).position = some ↑longestUnits := by
  have place := Binary64.position_ofNat maxNanos
  rwa [nearest_maxNanos, ← longestUnits,
    Nat.min_eq_left (Nat.le_of_lt longestUnits_lt_ceiling)] at place

theorem wholeNanos_of_reached {units : Nat} (reached : longestUnits ≤ units) :
    wholeNanos units = maxNanos := by
  have whole : maxNanos + 1 ≤ (units + one / 2) / one :=
    (Nat.le_div_iff_mul_le Binary64.one_pos).mpr (Nat.le_add_right_of_le reached)
  rw [wholeNanos]
  omega

/-- Half a nanosecond below the longest duration is already rounded past it. -/
theorem wholeNanos_nearest_eq_iff (units : Nat) :
    wholeNanos (nearest units 1) = maxNanos ↔ longestUnits ≤ nearest units 1 := by
  refine ⟨?_, wholeNanos_of_reached⟩
  intro same
  have below : nearest (maxNanos * one - one / 2) 1 = longestUnits := by decide +kernel
  rw [wholeNanos] at same
  have whole : maxNanos * one ≤ nearest units 1 + one / 2 :=
    (Nat.le_div_iff_mul_le Binary64.one_pos).mp (by omega)
  have rounded := Binary64.nearest_mono (Nat.sub_le_of_le_add whole) 1
  rwa [below, Binary64.nearest_of_short (Binary64.short_nearest units 1)] at rounded

section Scale

variable (base : Duration)

theorem scale_of_not_lt {factor : Binary64}
    (low : (Binary64.signedZero false).lt factor = false) : base.scale factor = .zero := by
  rw [scale, low, Bool.not_false, Bool.or_true, if_pos rfl]

theorem scale_of_zero (none : base.isZero = true) (factor : Binary64) :
    base.scale factor = .zero := by
  rw [scale, none, Bool.true_or, if_pos rfl]

theorem nanos_scale_of_product {factor : Binary64} {units : Nat} (nonzero : base.isZero = false)
    (growing : (Binary64.signedZero false).lt factor = true)
    (product : (ofNat base.nanos * factor).position = some ↑(min units ceiling)) :
    (base.scale factor).nanos = wholeNanos units := by
  have range := longestUnits_lt_ceiling
  by_cases inside : units < ceiling
  · have reached : (ofNat maxNanos).le (ofNat base.nanos * factor) = true ↔
        longestUnits ≤ units := by
      rw [Binary64.le_of_position position_maxNanos product, decide_eq_true_iff]
      omega
    obtain ⟨_, _, result, _⟩ := (Measures.of_position product inside).eq_finite
    rw [scale_of_finite nonzero growing result, ofWide_ofNat]
    split
    next beyond => rw [nanos_longest, wholeNanos_of_reached (reached.mp beyond)]
    next => rfl
  · have outside := Nat.le_of_not_lt inside
    rw [Nat.min_eq_right outside] at product
    obtain ⟨result, _⟩ := Binary64.eq_infinite_of_position product (Nat.le_refl ceiling)
    rw [scale_of_infinite nonzero growing result, nanos_longest,
      wholeNanos_of_reached (Nat.le_trans (Nat.le_of_lt range) outside)]

variable {factor : Binary64}

theorem nearest_nanos_pos (nonzero : base.isZero = false) : 0 < nearest base.nanos 1 := by
  rw [isZero, beq_eq_false_iff_ne] at nonzero
  exact Binary64.nearest_pos (Nat.pos_of_ne_zero nonzero)

theorem measures_nanos : Measures (ofNat base.nanos) (nearest base.nanos 1 * one) := by
  have inside : nearest base.nanos 1 * one < ceiling := by
    rw [Binary64.ceiling_eq]
    exact Nat.mul_lt_mul_of_pos_right base.nearest_nanos_lt Binary64.one_pos
  exact .of_position (Binary64.position_ofNat base.nanos) inside

theorem position_product {units : Nat} (nonzero : base.isZero = false)
    (here : factor.position = some ↑units) (positive : 0 < units) :
    (ofNat base.nanos * factor).position =
      some ↑(min (nearest (nearest base.nanos 1 * units) 1) ceiling) := by
  have some := base.nearest_nanos_pos nonzero
  by_cases inside : units < ceiling
  · have product := base.measures_nanos.position_mul ⟨here, inside⟩
    rwa [Binary64.nearest_product] at product
  · obtain ⟨rfl, rfl⟩ := Binary64.eq_infinite_of_position here (Nat.le_of_not_lt inside)
    obtain ⟨_, number⟩ := Binary64.ofNat_of_lt base.nearest_nanos_lt
    have beyond : ceiling ≤ nearest (nearest base.nanos 1 * ceiling) 1 :=
      (Binary64.short_shifted 2098).le_nearest (Nat.le_mul_of_pos_left ceiling some)
    have units : nearest base.nanos 1 * one ≠ 0 := (Nat.mul_pos some Binary64.one_pos).ne'
    rw [Nat.min_eq_right beyond, number]
    change (if nearest base.nanos 1 * one = 0 then Binary64.nan
      else .infinite (false != false)).position = _
    rw [if_neg units]
    rfl

theorem nanos_scale_of_position {place : Int} (here : factor.position = some place) :
    (base.scale factor).nanos =
      wholeNanos (nearest (nearest base.nanos 1 * place.toNat) 1) := by
  cases nonzero : base.isZero with
  | true =>
      have none : base.nanos = 0 := by rwa [isZero, beq_iff_eq] at nonzero
      rw [base.scale_of_zero nonzero, none, Binary64.nearest_zero, Nat.zero_mul,
        Binary64.nearest_zero, wholeNanos_zero, nanos_zero]
  | false =>
      have grows : (Binary64.signedZero false).lt factor = decide (0 < place) :=
        Binary64.lt_of_position Binary64.position_signedZero here
      by_cases positive : 0 < place
      · rw [decide_eq_true positive] at grows
        have units : factor.position = some ↑place.toNat := by
          rw [here, Int.toNat_of_nonneg (Int.le_of_lt positive)]
        exact base.nanos_scale_of_product nonzero grows
          (base.position_product nonzero units (by omega))
      · rw [decide_eq_false positive] at grows
        have none : place.toNat = 0 := by omega
        rw [base.scale_of_not_lt grows, none, Nat.mul_zero, Binary64.nearest_zero,
          wholeNanos_zero, nanos_zero]

theorem scale_mono {less more : Binary64} (ordered : less.le more = true) :
    base.scale less ≤ base.scale more := by
  obtain ⟨x, y, first, second, ordered⟩ := Binary64.exists_positions_of_le ordered
  have places : x.toNat ≤ y.toNat := Int.toNat_le_toNat ordered
  change (base.scale less).nanos ≤ (base.scale more).nanos
  rw [base.nanos_scale_of_position first, base.nanos_scale_of_position second]
  exact wholeNanos_mono (Binary64.nearest_mono (Nat.mul_le_mul_left _ places) 1)

theorem scale_eq_longest_iff (nonzero : base.isZero = false)
    (growing : (Binary64.signedZero false).lt factor = true) :
    base.scale factor = .longest ↔ (ofNat maxNanos).le (ofNat base.nanos * factor) = true := by
  obtain ⟨units, positive, here⟩ := Binary64.exists_units_of_pos growing
  have product := base.position_product nonzero here positive
  have scaled := base.nanos_scale_of_product nonzero growing product
  have range := longestUnits_lt_ceiling
  rw [Duration.ext_iff, nanos_longest, scaled, wholeNanos_nearest_eq_iff,
    Binary64.le_of_position position_maxNanos product, decide_eq_true_iff]
  omega

end Scale

structure Scales (base : Duration) : Prop where
  nanos : ∀ (factor : Binary64) (place : Int), factor.position = some place →
    (base.scale factor).nanos = wholeNanos (nearest (nearest base.nanos 1 * place.toNat) 1)
  mono : ∀ less more : Binary64, less.le more = true → base.scale less ≤ base.scale more
  zero : ∀ factor : Binary64, base.isZero = true ∨ (Binary64.signedZero false).lt factor = false →
    base.scale factor = .zero
  longest_iff : ∀ factor : Binary64, base.isZero = false →
    (Binary64.signedZero false).lt factor = true →
    (base.scale factor = .longest ↔ (ofNat maxNanos).le (ofNat base.nanos * factor) = true)

theorem scales (base : Duration) : base.Scales where
  nanos _ _ here := base.nanos_scale_of_position here
  mono _ _ ordered := base.scale_mono ordered
  zero factor stops := stops.elim (base.scale_of_zero · factor) base.scale_of_not_lt
  longest_iff _ nonzero growing := base.scale_eq_longest_iff nonzero growing

end Duration
end Cadence
