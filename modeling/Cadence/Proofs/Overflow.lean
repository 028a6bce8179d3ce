import Cadence.Proofs.Rounding

/-!
Where doubles end. Rounding keeps the order of magnitudes, so those that it takes out of the range
are the ones from a threshold on; a sum of finite numbers is finite unless the exact sum reaches it.
-/
namespace Cadence.Binary64

section Order

theorem roundHalfEven_mono {less more : Nat} (ordered : less ≤ more) (denominator : Nat) :
    roundHalfEven less denominator ≤ roundHalfEven more denominator := by
  have whole : less / denominator ≤ more / denominator := Nat.div_le_div_right ordered
  rcases Nat.lt_or_eq_of_le whole with below | same
  · have up := roundHalfEven_le less denominator
    have down := le_roundHalfEven more denominator
    omega
  · have first : denominator * (less / denominator) + less % denominator = less :=
      Nat.div_add_mod ..
    have second : denominator * (more / denominator) + more % denominator = more :=
      Nat.div_add_mod ..
    have rest : less % denominator ≤ more % denominator := by
      rw [same] at first
      omega
    simp only [roundHalfEven, same]
    split_ifs <;> omega

theorem grain_mono {less more : Nat} (ordered : less ≤ more) : grain less ≤ grain more := by
  rcases Nat.eq_zero_or_pos less with rfl | positive
  · exact Nat.zero_le _
  · have first : 2 ^ less.log2 ≤ more :=
      Nat.le_trans (Nat.log2_self_le (Nat.ne_of_gt positive)) ordered
    have some : more ≠ 0 := Nat.ne_of_gt (Nat.lt_of_lt_of_le positive ordered)
    exact Nat.sub_le_sub_right ((Nat.le_log2 some).mpr first) 52

theorem div_mul_two_pow_grain (numerator denominator : Nat) :
    numerator / (denominator * 2 ^ grain (numerator / denominator)) =
      numerator / denominator / 2 ^ grain (numerator / denominator) :=
  (Nat.div_div_eq_div_mul ..).symm

theorem roundHalfEven_grain_le (numerator denominator : Nat) :
    roundHalfEven numerator (denominator * 2 ^ grain (numerator / denominator)) ≤ 2 ^ 53 := by
  have few := div_grain_lt (numerator / denominator)
  have most := roundHalfEven_le numerator (denominator * 2 ^ grain (numerator / denominator))
  rw [Nat.one_shiftLeft, Nat.one_shiftLeft] at few
  rw [div_mul_two_pow_grain] at most
  omega

theorem two_pow_le_div_grain {units : Nat} (coarse : 0 < grain units) :
    2 ^ 52 ≤ units / 2 ^ grain units := by
  have bits : 52 + grain units = units.log2 := by
    rw [grain] at coarse ⊢
    omega
  have some : units ≠ 0 := by
    rintro rfl
    exact absurd coarse (Nat.lt_irrefl 0)
  rw [Nat.le_div_iff_mul_le (Nat.two_pow_pos _), ← Nat.pow_add, bits]
  exact Nat.log2_self_le some

theorem le_roundHalfEven_grain {numerator denominator : Nat}
    (coarse : 0 < grain (numerator / denominator)) :
    2 ^ 52 ≤ roundHalfEven numerator (denominator * 2 ^ grain (numerator / denominator)) := by
  have least := le_roundHalfEven numerator (denominator * 2 ^ grain (numerator / denominator))
  rw [div_mul_two_pow_grain] at least
  exact Nat.le_trans (two_pow_le_div_grain coarse) least

theorem nearest_mono {less more : Nat} (ordered : less ≤ more) (denominator : Nat) :
    nearest less denominator ≤ nearest more denominator := by
  have whole : less / denominator ≤ more / denominator := Nat.div_le_div_right ordered
  simp only [nearest, Nat.shiftLeft_eq]
  -- A power of two lies between magnitudes of different grains, and is kept by rounding.
  rcases Nat.lt_or_eq_of_le (grain_mono whole) with finer | same
  · have most := roundHalfEven_grain_le less denominator
    have least := le_roundHalfEven_grain (Nat.zero_lt_of_lt finer)
    calc
      _ ≤ 2 ^ 53 * 2 ^ grain (less / denominator) := Nat.mul_le_mul_right _ most
      _ = 2 ^ 52 * 2 ^ (grain (less / denominator) + 1) := by
        rw [← Nat.pow_add, ← Nat.pow_add, Nat.add_comm _ 1, ← Nat.add_assoc]
      _ ≤ 2 ^ 52 * 2 ^ grain (more / denominator) :=
        Nat.mul_le_mul_left _ (Nat.pow_le_pow_right Nat.two_pos finer)
      _ ≤ _ := Nat.mul_le_mul_right _ least
  · rw [same]
    exact Nat.mul_le_mul_right _ (roundHalfEven_mono ordered _)

end Order

section Threshold

/-- Half a step above the greatest magnitude in range; the tie goes to the one out of range. -/
def overflowThreshold : Nat := (1 <<< 54 - 1) * 1 <<< 2044

theorem overflowThreshold_pos : 0 < overflowThreshold := by decide

theorem nearest_lt_ceiling_iff (units : Nat) :
    nearest units 1 < ceiling ↔ units < overflowThreshold := by
  have first : nearest overflowThreshold 1 = ceiling := by decide +kernel
  have last : nearest (overflowThreshold - 1) 1 < ceiling := by decide +kernel
  constructor
  · intro inside
    by_contra beyond
    have more := nearest_mono (Nat.le_of_not_lt beyond) 1
    omega
  · intro below
    have less := nearest_mono (Nat.le_sub_one_of_lt below) 1
    exact Nat.lt_of_le_of_lt less last

theorem isFinite_ofUnits (negative : Bool) (units : Nat) :
    (ofUnits negative units 1).isFinite = decide (units < overflowThreshold) := by
  rw [ofUnits]
  split
  next inside => exact (decide_eq_true ((nearest_lt_ceiling_iff units).mp inside)).symm
  next outside => exact (decide_eq_false (mt (nearest_lt_ceiling_iff units).mpr outside)).symm

theorem position_of_finite {number : Binary64} (finite : number.isFinite = true) :
    ∃ place, number.position = some place := by
  cases number with
  | nan => exact nomatch finite
  | infinite _ => exact nomatch finite
  | finite negative units _ => exact ⟨signed negative units, rfl⟩

theorem signed_not (negative : Bool) (units : Nat) :
    signed (!negative) units = -signed negative units := by
  cases negative
  · rfl
  · exact (Int.neg_neg _).symm

theorem isFinite_sub {low high : Binary64} {x y : Int} (lowFinite : low.isFinite = true)
    (highFinite : high.isFinite = true) (lowPlace : low.position = some x)
    (highPlace : high.position = some y) :
    (high - low).isFinite = decide ((y - x).natAbs < overflowThreshold) := by
  cases low with
  | nan => exact nomatch lowFinite
  | infinite _ => exact nomatch lowFinite
  | finite a m _ =>
      cases high with
      | nan => exact nomatch highFinite
      | infinite _ => exact nomatch highFinite
      | finite b n _ =>
          have distance : signed b n + signed (!a) m = y - x := by
            cases lowPlace
            cases highPlace
            rw [signed_not]
            rfl
          change (if signed b n + signed (!a) m = 0 then signedZero (b && !a)
            else ofUnits (signed b n + signed (!a) m < 0)
              (signed b n + signed (!a) m).natAbs 1).isFinite = _
          rw [distance]
          split
          next none =>
            rw [signedZero, isFinite_ofUnits, none]
            rfl
          next => exact isFinite_ofUnits _ _

end Threshold
end Cadence.Binary64
