import Cadence.Proofs.Overflow

namespace Cadence.Binary64

section Nearest

theorem short_shifted (places : Nat) : Short (1 <<< places) := by
  rw [Nat.one_shiftLeft]
  exact short_two_pow places

theorem nearest_zero (denominator : Nat) : nearest 0 denominator = 0 := by
  simp [nearest, roundHalfEven]

theorem nearest_mul_cancel (whole : Nat) {denominator : Nat} (positive : 0 < denominator) :
    nearest (whole * denominator) denominator = nearest whole 1 := by
  have cancelled := nearest_mul_right whole 1 positive
  rwa [Nat.one_mul] at cancelled

theorem nearest_product (first second : Nat) :
    nearest (first * one * second) one = nearest (first * second) 1 := by
  rw [Nat.mul_right_comm]
  exact nearest_mul_cancel (first * second) one_pos

section Bounds

variable {units bound : Nat} (short : Short bound)

include short

theorem Short.nearest_le (below : units ≤ bound) : nearest units 1 ≤ bound := by
  have rounded := nearest_mono below 1
  rwa [nearest_of_short short] at rounded

theorem Short.le_nearest (above : bound ≤ units) : bound ≤ nearest units 1 := by
  have rounded := nearest_mono above 1
  rwa [nearest_of_short short] at rounded

end Bounds

end Nearest

theorem position_ofUnits (negative : Bool) (numerator denominator : Nat) :
    (ofUnits negative numerator denominator).position =
      some (signed negative (min (nearest numerator denominator) ceiling)) := by
  rw [ofUnits]
  split
  next inside => rw [Nat.min_eq_left (Nat.le_of_lt inside)]; rfl
  next outside => rw [Nat.min_eq_right (Nat.le_of_not_lt outside)]; rfl

theorem position_neg (number : Binary64) : (-number).position = number.position.map (-·) := by
  cases number with
  | nan => rfl
  | infinite negative => exact congrArg some (signed_not negative ceiling)
  | finite negative units _ => exact congrArg some (signed_not negative units)

theorem isFinite_neg (number : Binary64) : (-number).isFinite = number.isFinite := by
  cases number <;> rfl

theorem exists_positions_of_le {first second : Binary64} (ordered : first.le second = true) :
    ∃ x y, first.position = some x ∧ second.position = some y ∧ x ≤ y := by
  rw [le] at ordered
  split at ordered
  next x y firstHere secondHere => exact ⟨x, y, firstHere, secondHere, of_decide_eq_true ordered⟩
  next => exact absurd ordered Bool.false_ne_true

theorem exists_positions_of_lt {first second : Binary64} (ordered : first.lt second = true) :
    ∃ x y, first.position = some x ∧ second.position = some y ∧ x < y := by
  rw [lt] at ordered
  split at ordered
  next x y firstHere secondHere => exact ⟨x, y, firstHere, secondHere, of_decide_eq_true ordered⟩
  next => exact absurd ordered Bool.false_ne_true

theorem exists_units_of_pos {number : Binary64} (positive : (signedZero false).lt number = true) :
    ∃ units : Nat, 0 < units ∧ number.position = some ↑units := by
  obtain ⟨x, y, zero, here, above⟩ := exists_positions_of_lt positive
  obtain rfl : 0 = x := Option.some.inj (position_signedZero.symm.trans zero)
  refine ⟨y.toNat, by omega, ?_⟩
  rw [here, Int.toNat_of_nonneg (Int.le_of_lt above)]

theorem eq_infinite_of_position {number : Binary64} {units : Nat}
    (here : number.position = some ↑units) (outside : ceiling ≤ units) :
    number = .infinite false ∧ units = ceiling := by
  cases number with
  | nan => exact nomatch here
  | infinite negative =>
      have place : signed negative ceiling = ↑units := Option.some.inj here
      have range : 0 < ceiling := shifted_pos 2098
      cases negative with
      | false => exact ⟨rfl, (Int.ofNat_inj.mp place).symm⟩
      | true =>
          have below : -(ceiling : Int) = ↑units := place
          omega
  | finite negative made representable =>
      have place : signed negative made = ↑units := Option.some.inj here
      have inside := representable.1
      cases negative <;> simp [signed] at place <;> omega

theorem position_add {first second : Binary64} {x y : Int} (firstFinite : first.isFinite = true)
    (secondFinite : second.isFinite = true) (firstHere : first.position = some x)
    (secondHere : second.position = some y) (least : 0 ≤ x + y) :
    (first + second).position = some ↑(min (nearest (x + y).toNat 1) ceiling) := by
  cases first with
  | nan => exact nomatch firstFinite
  | infinite _ => exact nomatch firstFinite
  | finite a m _ =>
      cases second with
      | nan => exact nomatch secondFinite
      | infinite _ => exact nomatch secondFinite
      | finite b n _ =>
          have sum : signed a m + signed b n = x + y := by
            cases firstHere
            cases secondHere
            rfl
          change (if signed a m + signed b n = 0 then signedZero (a && b)
            else ofUnits (signed a m + signed b n < 0)
              (signed a m + signed b n).natAbs 1).position = _
          rw [sum]
          split
          next none =>
            rw [signedZero, position_ofUnits, none, Int.toNat_zero, nearest_zero, Nat.zero_min]
            cases a && b <;> rfl
          next =>
            have whole : (x + y).natAbs = (x + y).toNat := by omega
            rw [position_ofUnits, decide_eq_false (Int.not_lt.mpr least), whole]
            rfl

/-- A finite number that is not below zero, in units. Zero has either sign. -/
structure Measures (number : Binary64) (units : Nat) : Prop where
  here : number.position = some ↑units
  inside : units < ceiling

namespace Measures

variable {number first second : Binary64} {units m n : Nat}

theorem of_position (here : number.position = some ↑(min units ceiling))
    (inside : units < ceiling) : Measures number units := by
  rw [Nat.min_eq_left (Nat.le_of_lt inside)] at here
  exact ⟨here, inside⟩

theorem of_finite (finite : number.isFinite = true) (nonneg : number.lt (ofNat 0) = false) :
    ∃ units, Measures number units := by
  obtain ⟨place, here⟩ := position_of_finite finite
  have zero : (ofNat 0).position = some 0 := by
    rw [position_ofNat, nearest_zero, Nat.zero_mul, Nat.zero_min]
    rfl
  rw [lt_of_position here zero, decide_eq_false_iff_not, Int.not_lt] at nonneg
  refine ⟨place.toNat, ?_, ?_⟩
  · rw [here, Int.toNat_of_nonneg nonneg]
  · cases number with
    | nan => exact nomatch finite
    | infinite _ => exact nomatch finite
    | finite negative made representable =>
        have inside := representable.1
        cases here
        cases negative <;> simp [signed] <;> omega

theorem eq_finite (measures : Measures number units) : ∃ negative representable,
    number = .finite negative units representable ∧ (negative = true → units = 0) := by
  obtain ⟨here, inside⟩ := measures
  cases number with
  | nan => exact nomatch here
  | infinite negative =>
      have place : signed negative ceiling = ↑units := Option.some.inj here
      cases negative <;> simp [signed] at place <;> omega
  | finite negative made representable =>
      have place : signed negative made = ↑units := Option.some.inj here
      obtain rfl : made = units := by
        cases negative <;> simp [signed] at place <;> omega
      refine ⟨negative, representable, rfl, ?_⟩
      rintro rfl
      simp [signed] at place
      omega

theorem isFinite (measures : Measures number units) : number.isFinite = true := by
  obtain ⟨_, _, rfl, _⟩ := measures.eq_finite
  rfl

theorem short (measures : Measures number units) : Short units := by
  obtain ⟨_, representable, _⟩ := measures.eq_finite
  obtain ⟨significand, shift, few, same⟩ := representable.2
  rw [Nat.one_shiftLeft] at few
  rw [Nat.shiftLeft_eq] at same
  exact ⟨significand, shift, few, same⟩

theorem le_iff (left : Measures first m) (right : Measures second n) :
    first.le second = true ↔ m ≤ n := by
  rw [le_of_position left.here right.here, decide_eq_true_iff, Int.ofNat_le]

theorem lt_iff (left : Measures first m) (right : Measures second n) :
    first.lt second = true ↔ m < n := by
  rw [lt_of_position left.here right.here, decide_eq_true_iff, Int.ofNat_lt]

theorem add (left : Measures first m) (right : Measures second n)
    (inside : nearest (m + n) 1 < ceiling) : Measures (first + second) (nearest (m + n) 1) := by
  have sum := position_add left.isFinite right.isFinite left.here right.here (by omega)
  have whole : (↑m + ↑n : Int).toNat = m + n := by omega
  rw [whole] at sum
  exact of_position sum inside

theorem sub (left : Measures first m) (right : Measures second n) (ordered : n ≤ m)
    (inside : nearest (m - n) 1 < ceiling) : Measures (first - second) (nearest (m - n) 1) := by
  have opposite : (-second).position = some (-↑n) := by rw [position_neg, right.here]; rfl
  have finite : (-second).isFinite = true := by rw [isFinite_neg, right.isFinite]
  have difference := position_add left.isFinite finite left.here opposite (by omega)
  have whole : (↑m + -↑n : Int).toNat = m - n := by omega
  rw [whole] at difference
  exact of_position difference inside

theorem position_mul (left : Measures first m) (right : Measures second n) :
    (first * second).position = some ↑(min (nearest (m * n) one) ceiling) := by
  obtain ⟨a, _, rfl, leftZero⟩ := left.eq_finite
  obtain ⟨b, _, rfl, rightZero⟩ := right.eq_finite
  change (ofUnits (a != b) (m * n) one).position = _
  rw [position_ofUnits]
  cases opposite : a != b with
  | false => rfl
  | true =>
      have none : m * n = 0 := by
        rw [Nat.mul_eq_zero]
        cases a with
        | true => exact .inl (leftZero rfl)
        | false => exact .inr (rightZero (Bool.false_bne b ▸ opposite))
      rw [none, nearest_zero, Nat.zero_min]
      rfl

theorem mul (left : Measures first m) (right : Measures second n)
    (inside : nearest (m * n) one < ceiling) : Measures (first * second) (nearest (m * n) one) :=
  of_position (position_mul left right) inside

end Measures

end Cadence.Binary64
