import Cadence.Binary64
import Mathlib.Algebra.Order.Ring.Nat

/-!
Rounding to doubles. A common factor of a quotient does not matter, a magnitude of at most 53
significant bits stays as it is, and doubling commutes with rounding. So products with powers of two
are exact, and so are powers of two by repeated squaring, until they leave the range.
-/
namespace Cadence.Binary64

/-- At most 53 bits from the first to the last that is set. -/
def Short (units : Nat) : Prop :=
  ∃ significand shift, significand < 2 ^ 53 ∧ units = significand * 2 ^ shift

section Shifted

theorem shifted_pos (places : Nat) : 0 < 1 <<< places := by
  rw [Nat.one_shiftLeft]
  exact Nat.two_pow_pos places

theorem shifted_mul (first second : Nat) : 1 <<< first * 1 <<< second = 1 <<< (first + second) := by
  simp only [Nat.one_shiftLeft, Nat.pow_add]

theorem two_pow_lt_shifted {exponent places : Nat} (fewer : exponent < places) :
    2 ^ exponent < 1 <<< places := by
  rw [Nat.one_shiftLeft]
  exact Nat.pow_lt_pow_right Nat.one_lt_two fewer

theorem shifted_le_two_pow {exponent places : Nat} (more : places ≤ exponent) :
    1 <<< places ≤ 2 ^ exponent := by
  rw [Nat.one_shiftLeft]
  exact Nat.pow_le_pow_right Nat.two_pos more

theorem one_pos : 0 < one := shifted_pos 1074

theorem ceiling_eq : ceiling = 1 <<< 1024 * one := (shifted_mul 1024 1074).symm

end Shifted

section Quotient

theorem le_roundHalfEven (numerator denominator : Nat) :
    numerator / denominator ≤ roundHalfEven numerator denominator := by
  simp only [roundHalfEven]
  split
  · omega
  · split <;> omega

theorem roundHalfEven_mul_right (numerator denominator : Nat) {factor : Nat}
    (positive : 0 < factor) :
    roundHalfEven (numerator * factor) (denominator * factor) =
      roundHalfEven numerator denominator := by
  have whole : numerator * factor / (denominator * factor) = numerator / denominator :=
    Nat.mul_div_mul_right _ _ positive
  have rest : 2 * (numerator * factor % (denominator * factor)) =
      2 * (numerator % denominator) * factor := by
    rw [Nat.mul_mod_mul_right, Nat.mul_assoc]
  have below (a b : Nat) : a * factor < b * factor ↔ a < b :=
    ⟨Nat.lt_of_mul_lt_mul_right, fun less => Nat.mul_lt_mul_of_pos_right less positive⟩
  simp only [roundHalfEven, whole, rest, below]

theorem roundHalfEven_mul_self (whole : Nat) {denominator : Nat} (positive : 0 < denominator) :
    roundHalfEven (whole * denominator) denominator = whole := by
  have quotient : whole * denominator / denominator = whole := Nat.mul_div_cancel _ positive
  simp [roundHalfEven, quotient, positive]

theorem nearest_mul_right (numerator denominator : Nat) {factor : Nat} (positive : 0 < factor) :
    nearest (numerator * factor) (denominator * factor) = nearest numerator denominator := by
  have whole : numerator * factor / (denominator * factor) = numerator / denominator :=
    Nat.mul_div_mul_right _ _ positive
  have moved (shift : Nat) : (denominator * factor) <<< shift = denominator <<< shift * factor := by
    rw [Nat.shiftLeft_eq, Nat.shiftLeft_eq, Nat.mul_right_comm]
  simp only [nearest, whole, moved, roundHalfEven_mul_right _ _ positive]

end Quotient

section Whole

theorem nearest_one (units : Nat) :
    nearest units 1 = roundHalfEven units (2 ^ grain units) * 2 ^ grain units := by
  simp only [nearest, Nat.div_one, Nat.shiftLeft_eq, Nat.one_mul]

theorem two_pow_grain_le {units : Nat} (positive : 0 < units) : 2 ^ grain units ≤ units := by
  have first := Nat.log2_self_le (Nat.ne_of_gt positive)
  have fewer : 2 ^ grain units ≤ 2 ^ units.log2 :=
    Nat.pow_le_pow_right (by omega) (by rw [grain]; omega)
  exact Nat.le_trans fewer first

theorem nearest_of_short {units : Nat} (short : Short units) : nearest units 1 = units := by
  obtain ⟨significand, shift, few, rfl⟩ := short
  -- Either the unit of the last place is one, or it divides the power of two.
  have fits : grain (significand * 2 ^ shift) ≤ shift := by
    by_contra tooWide
    have wide : 52 + shift < (significand * 2 ^ shift).log2 := by
      rw [grain] at tooWide
      omega
    have some : significand * 2 ^ shift ≠ 0 := by
      intro zero
      rw [zero] at wide
      simp at wide
    have least : 2 ^ (53 + shift) ≤ significand * 2 ^ shift :=
      (Nat.le_log2 some).mp (by omega)
    have most : significand * 2 ^ shift < 2 ^ 53 * 2 ^ shift :=
      Nat.mul_lt_mul_of_pos_right few (Nat.two_pow_pos shift)
    rw [Nat.pow_add] at least
    omega
  have parts : significand * 2 ^ shift =
      significand * 2 ^ (shift - grain (significand * 2 ^ shift)) *
        2 ^ grain (significand * 2 ^ shift) := by
    rw [Nat.mul_assoc, ← Nat.pow_add, Nat.sub_add_cancel fits]
  rw [nearest_one]
  generalize grain (significand * 2 ^ shift) = place at *
  rw [parts, roundHalfEven_mul_self _ (Nat.two_pow_pos place)]

theorem short_of_lt {units : Nat} (small : units < 2 ^ 53) : Short units :=
  ⟨units, 0, small, (Nat.mul_one units).symm⟩

theorem short_two_pow (exponent : Nat) : Short (2 ^ exponent) :=
  ⟨1, exponent, by decide, (Nat.one_mul _).symm⟩

theorem Short.mul_two_pow {units : Nat} (short : Short units) (exponent : Nat) :
    Short (units * 2 ^ exponent) := by
  obtain ⟨significand, shift, few, rfl⟩ := short
  refine ⟨significand, shift + exponent, few, ?_⟩
  rw [Nat.mul_assoc, Nat.pow_add]

theorem nearest_two_pow (exponent : Nat) : nearest (2 ^ exponent) 1 = 2 ^ exponent :=
  nearest_of_short (short_two_pow exponent)

theorem nearest_two_pow_lt {exponent : Nat} (small : exponent < 1024) :
    nearest (2 ^ exponent) 1 < 1 <<< 1024 := by
  rw [nearest_two_pow]
  exact two_pow_lt_shifted small

theorem short_nearest (numerator denominator : Nat) : Short (nearest numerator denominator) := by
  obtain ⟨significand, shift, few, same⟩ := nearest_significand numerator denominator
  rw [Nat.one_shiftLeft] at few
  rw [Nat.shiftLeft_eq] at same
  exact ⟨significand, shift, few, same⟩

theorem nearest_eq_self_iff (units : Nat) : nearest units 1 = units ↔ Short units := by
  constructor
  · intro same
    rw [← same]
    exact short_nearest units 1
  · exact nearest_of_short

theorem nearest_mul_two_pow (units exponent : Nat) :
    nearest (units * 2 ^ exponent) 1 = nearest units 1 * 2 ^ exponent := by
  by_cases small : units < 2 ^ 53
  · have short := short_of_lt small
    rw [nearest_of_short short, nearest_of_short (short.mul_two_pow exponent)]
  · have large : 2 ^ 53 ≤ units := Nat.le_of_not_lt small
    have some : units ≠ 0 := by
      have least := Nat.two_pow_pos 53
      omega
    have bits : (units * 2 ^ exponent).log2 = units.log2 + exponent := by
      rw [Nat.log2_eq_iff (Nat.mul_ne_zero some (Nat.two_pow_pos exponent).ne')]
      constructor
      · rw [Nat.pow_add]
        exact Nat.mul_le_mul_right _ (Nat.log2_self_le some)
      · rw [Nat.add_right_comm, Nat.pow_add]
        exact Nat.mul_lt_mul_of_pos_right Nat.lt_log2_self (Nat.two_pow_pos exponent)
    have coarser : grain (units * 2 ^ exponent) = grain units + exponent := by
      have least : 53 ≤ units.log2 := (Nat.le_log2 some).mpr large
      rw [grain, grain, bits]
      omega
    rw [nearest_one, nearest_one, coarser, Nat.pow_add,
      roundHalfEven_mul_right _ _ (Nat.two_pow_pos exponent), Nat.mul_assoc]

theorem nearest_mul_shifted (units places : Nat) :
    nearest (units * 1 <<< places) 1 = nearest units 1 * 1 <<< places := by
  rw [Nat.one_shiftLeft]
  exact nearest_mul_two_pow units places

theorem nearest_mul_one (units : Nat) : nearest (units * one) 1 = nearest units 1 * one :=
  nearest_mul_shifted units 1074

theorem nearest_le_double (units : Nat) : nearest units 1 ≤ 2 * units := by
  rcases Nat.eq_zero_or_pos units with rfl | positive
  · exact Nat.le_of_eq rfl
  · have most := roundHalfEven_le units (2 ^ grain units)
    have whole := Nat.div_mul_le_self units (2 ^ grain units)
    have last := two_pow_grain_le positive
    rw [nearest_one]
    calc
      roundHalfEven units (2 ^ grain units) * 2 ^ grain units ≤
          (units / 2 ^ grain units + 1) * 2 ^ grain units := Nat.mul_le_mul_right _ most
      _ = units / 2 ^ grain units * 2 ^ grain units + 2 ^ grain units := Nat.succ_mul ..
      _ ≤ 2 * units := by omega

theorem nearest_pos {units : Nat} (positive : 0 < units) : 0 < nearest units 1 := by
  have last := two_pow_grain_le positive
  have whole : 0 < units / 2 ^ grain units := Nat.div_pos last (Nat.two_pow_pos _)
  have least := le_roundHalfEven units (2 ^ grain units)
  rw [nearest_one]
  exact Nat.mul_pos (Nat.lt_of_lt_of_le whole least) (Nat.two_pow_pos _)

end Whole

section Order

theorem lt_of_position {a b : Binary64} {x y : Int} (first : a.position = some x)
    (second : b.position = some y) : a.lt b = decide (x < y) := by
  rw [lt, first, second]

theorem le_of_position {a b : Binary64} {x y : Int} (first : a.position = some x)
    (second : b.position = some y) : a.le b = decide (x ≤ y) := by
  rw [le, first, second]

end Order

section Arithmetic

theorem ofNat_of_lt {value : Nat} (inside : nearest value 1 < 1 <<< 1024) :
    ∃ representable, ofNat value = .finite false (nearest value 1 * one) representable := by
  have bounded : nearest (value * one) 1 < ceiling := by
    rw [nearest_mul_one, ceiling_eq]
    exact Nat.mul_lt_mul_of_pos_right inside one_pos
  rw [← nearest_mul_one]
  exact ⟨_, dif_pos bounded⟩

theorem ofNat_of_le {value : Nat} (outside : 1 <<< 1024 ≤ nearest value 1) :
    ofNat value = .infinite false := by
  have unbounded : ¬nearest (value * one) 1 < ceiling := by
    rw [nearest_mul_one, ceiling_eq]
    exact Nat.not_lt_of_le (Nat.mul_le_mul_right _ outside)
  exact dif_neg unbounded

theorem ofNat_two_pow_of_le {exponent : Nat} (large : 1024 ≤ exponent) :
    ofNat (2 ^ exponent) = .infinite false := by
  apply ofNat_of_le
  rw [nearest_two_pow]
  exact shifted_le_two_pow large

theorem position_ofNat (value : Nat) :
    (ofNat value).position = some ↑(min (nearest value 1 * one) ceiling) := by
  by_cases inside : nearest value 1 < 1 <<< 1024
  · obtain ⟨_, number⟩ := ofNat_of_lt inside
    have bounded : nearest value 1 * one ≤ ceiling := by
      rw [ceiling_eq]
      exact Nat.mul_le_mul_right one (Nat.le_of_lt inside)
    rw [number, Nat.min_eq_left bounded]
    rfl
  · have outside := Nat.le_of_not_lt inside
    have unbounded : ceiling ≤ nearest value 1 * one := by
      rw [ceiling_eq]
      exact Nat.mul_le_mul_right one outside
    rw [ofNat_of_le outside, Nat.min_eq_right unbounded]
    rfl

theorem position_signedZero : (signedZero false).position = some 0 := by
  have zero : signedZero false = ofNat 0 := by rw [ofNat, ofRatio, Nat.zero_mul, signedZero]
  have rounded : nearest 0 1 = 0 := nearest_of_short (short_of_lt (Nat.two_pow_pos 53))
  have place := position_ofNat 0
  rw [rounded, Nat.zero_mul, Nat.zero_min] at place
  rw [zero]
  exact place

theorem zero_lt_ofNat {value : Nat} (positive : 0 < value) :
    (signedZero false).lt (ofNat value) = true := by
  have units : 0 < nearest value 1 * one := Nat.mul_pos (nearest_pos positive) one_pos
  have range : 0 < ceiling := shifted_pos 2098
  have least : 0 < min (nearest value 1 * one) ceiling := Nat.lt_min.mpr ⟨units, range⟩
  rw [lt_of_position position_signedZero (position_ofNat value)]
  exact decide_eq_true (Int.natCast_pos.mpr least)

protected theorem mul_comm (a b : Binary64) : a * b = b * a := by
  cases a with
  | nan => cases b <;> rfl
  | infinite negative =>
      cases b with
      | nan => rfl
      | infinite other => exact congrArg infinite bne_comm
      | finite other units representable =>
          exact congrArg (fun sign => if units = 0 then nan else infinite sign) bne_comm
  | finite negative units representable =>
      cases b with
      | nan => rfl
      | infinite other =>
          exact congrArg (fun sign => if units = 0 then nan else infinite sign) bne_comm
      | finite other factor _ =>
          change ofUnits (negative != other) (units * factor) one =
            ofUnits (other != negative) (factor * units) one
          rw [bne_comm, Nat.mul_comm]

theorem ofNat_mul_two_pow {value exponent : Nat} (positive : 0 < value)
    (inside : nearest value 1 < 1 <<< 1024) :
    ofNat value * ofNat (2 ^ exponent) = ofNat (nearest value 1 * 2 ^ exponent) := by
  obtain ⟨_, left⟩ := ofNat_of_lt inside
  by_cases small : exponent < 1024
  · obtain ⟨_, right⟩ := ofNat_of_lt (nearest_two_pow_lt small)
    have product : nearest (nearest value 1 * one * (2 ^ exponent * one)) one =
        nearest (nearest value 1 * 2 ^ exponent * one) 1 := by
      have regrouped : nearest value 1 * one * (2 ^ exponent * one) =
          nearest value 1 * 2 ^ exponent * one * one := by
        rw [Nat.mul_mul_mul_comm, ← Nat.mul_assoc]
      have cancelled := nearest_mul_right (nearest value 1 * 2 ^ exponent * one) 1 one_pos
      rw [Nat.one_mul] at cancelled
      rw [regrouped, cancelled]
    rw [left, right]
    change ofUnits (false != false) _ one = ofUnits false _ 1
    simp only [ofUnits, nearest_two_pow, product, bne_self_eq_false]
  · have large : 1024 ≤ exponent := Nat.le_of_not_lt small
    have some : nearest value 1 * one ≠ 0 :=
      (Nat.mul_pos (nearest_pos positive) one_pos).ne'
    have further : 1 <<< 1024 ≤ nearest (nearest value 1 * 2 ^ exponent) 1 := by
      rw [nearest_of_short ((short_nearest value 1).mul_two_pow exponent)]
      exact Nat.le_trans (shifted_le_two_pow large)
        (Nat.le_mul_of_pos_left _ (nearest_pos positive))
    rw [left, ofNat_two_pow_of_le large, ofNat_of_le further]
    change (if nearest value 1 * one = 0 then nan else infinite (false != false)) = _
    rw [if_neg some]
    rfl

theorem ofNat_two_pow_mul (first second : Nat) :
    ofNat (2 ^ first) * ofNat (2 ^ second) = ofNat (2 ^ (first + second)) := by
  have exact_of_small {first : Nat} (small : first < 1024) (second : Nat) :
      ofNat (2 ^ first) * ofNat (2 ^ second) = ofNat (2 ^ (first + second)) := by
    rw [ofNat_mul_two_pow (Nat.two_pow_pos first) (nearest_two_pow_lt small), nearest_two_pow,
      Nat.pow_add]
  by_cases small : first < 1024
  · exact exact_of_small small second
  · by_cases other : second < 1024
    · rw [Binary64.mul_comm, exact_of_small other first, Nat.add_comm]
    · have large : 1024 ≤ first := Nat.le_of_not_lt small
      have sum : 1024 ≤ first + second := by omega
      rw [ofNat_two_pow_of_le large, ofNat_two_pow_of_le (Nat.le_of_not_lt other),
        ofNat_two_pow_of_le sum]
      rfl

theorem powFrom_two_pow (digits result base exponent : Nat) :
    powFrom (ofNat (2 ^ result)) (ofNat (2 ^ base)) exponent digits =
      ofNat (2 ^ (result + base * (exponent % 2 ^ digits))) := by
  induction digits generalizing result base exponent with
  | zero => rw [powFrom, Nat.pow_zero, Nat.mod_one, Nat.mul_zero, Nat.add_zero]
  | succ digits ih =>
      have split : exponent % 2 ^ (digits + 1) =
          exponent % 2 + 2 * (exponent / 2 % 2 ^ digits) := by
        rw [Nat.pow_succ', Nat.mod_mul]
      have doubled : (base + base) * (exponent / 2 % 2 ^ digits) =
          base * (2 * (exponent / 2 % 2 ^ digits)) := by
        rw [← Nat.two_mul, Nat.mul_comm 2 base, Nat.mul_assoc]
      simp only [powFrom, ofNat_two_pow_mul]
      by_cases odd : exponent % 2 = 1
      · rw [if_pos odd, ih, split, odd, doubled, Nat.mul_add, Nat.mul_one, Nat.add_assoc]
      · have even : exponent % 2 = 0 := by omega
        rw [if_neg odd, ih, split, even, doubled, Nat.zero_add]

theorem pow_two (exponent : Nat) : (ofNat 2).pow exponent = ofNat (2 ^ exponent) := by
  have whole : exponent % 2 ^ (exponent.log2 + 1) = exponent := Nat.mod_eq_of_lt Nat.lt_log2_self
  have run := powFrom_two_pow (exponent.log2 + 1) 0 1 exponent
  rw [whole, Nat.zero_add, Nat.one_mul] at run
  exact run

end Arithmetic
end Cadence.Binary64
