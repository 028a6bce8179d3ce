import Cadence.Jitter
import Cadence.Proofs.Factor
import Cadence.Proofs.Scaling
import Cadence.Proofs.Scatter

/-!
Range jitter. The factor that a word picks never leaves the range, though the width of the range, its
part and their sum are all rounded: what rounding adds to the width is less than the part that no
word picks. So the delay made stays between the multiples by the bounds.
-/
namespace Cadence

open Binary64 (Measures Short nearest grain one ceiling)

namespace Binary64

theorem mul_nearest_le {count : Nat} (below : count < 2 ^ 52) (width : Nat) :
    count * nearest width 1 ≤ width / 2 ^ grain width * 2 ^ grain width * 2 ^ 52 := by
  rw [nearest_one]
  rcases Nat.eq_zero_or_pos (grain width) with fine | coarse
  · have same := roundHalfEven_mul_self width Nat.one_pos
    rw [Nat.mul_one] at same
    rw [fine, Nat.pow_zero, same, Nat.div_one, Nat.mul_one, Nat.mul_comm]
    exact Nat.mul_le_mul_left width (Nat.le_of_lt below)
  · have many := two_pow_le_div_grain coarse
    have most := roundHalfEven_le width (2 ^ grain width)
    generalize width / 2 ^ grain width = whole at many most ⊢
    generalize 2 ^ grain width = step at most ⊢
    -- Rounding adds one step at most; the part left out is no less, as there are 2^52 steps or more.
    have parts : count * (whole + 1) ≤ whole * 2 ^ 52 := by
      have fewer : count * (whole + 1) ≤ (2 ^ 52 - 1) * (whole + 1) :=
        Nat.mul_le_mul_right _ (by omega)
      omega
    calc
      count * (roundHalfEven width step * step) ≤ count * ((whole + 1) * step) :=
        Nat.mul_le_mul_left _ (Nat.mul_le_mul_right _ most)
      _ = count * (whole + 1) * step := (Nat.mul_assoc ..).symm
      _ ≤ whole * 2 ^ 52 * step := Nat.mul_le_mul_right _ parts
      _ = whole * step * 2 ^ 52 := Nat.mul_right_comm ..

theorem nearest_mul_nearest_le {count : Nat} (below : count < 2 ^ 52) (width : Nat) :
    nearest (count * nearest width 1) (2 ^ 52) ≤ width := by
  have few := div_grain_lt width
  rw [Nat.one_shiftLeft, Nat.one_shiftLeft] at few
  have short : Short (width / 2 ^ grain width * 2 ^ grain width) := ⟨_, _, few, rfl⟩
  calc
    nearest (count * nearest width 1) (2 ^ 52) ≤
        nearest (width / 2 ^ grain width * 2 ^ grain width * 2 ^ 52) (2 ^ 52) :=
      nearest_mono (mul_nearest_le below width) _
    _ = width / 2 ^ grain width * 2 ^ grain width := by
      rw [nearest_mul_cancel _ (Nat.two_pow_pos 52), nearest_of_short short]
    _ ≤ width := Nat.div_mul_le_self ..

end Binary64

namespace Random

def parts (word : UInt64) : Nat := word.toNat >>> 12

theorem parts_lt (word : UInt64) : parts word < 2 ^ 52 := by
  have bits := word.toNat_lt
  rw [parts, Nat.shiftRight_eq_div_pow]
  omega

theorem one_eq : one = 1 <<< 1022 * 1 <<< 52 := (Binary64.shifted_mul 1022 52).symm

theorem measures_fraction (word : UInt64) :
    Measures (fraction word) (parts word * 1 <<< 1022) := by
  have exact : nearest (parts word * one) (1 <<< 52) = parts word * 1 <<< 1022 := by
    have short : Short (parts word) :=
      Binary64.short_of_lt (Nat.lt_of_lt_of_le (parts_lt word) (by decide))
    rw [one_eq, ← Nat.mul_assoc, Binary64.nearest_mul_cancel _ (Binary64.shifted_pos 52),
      Binary64.nearest_mul_shifted, Binary64.nearest_of_short short]
  have place := Binary64.position_ofUnits false (parts word * one) (1 <<< 52)
  rw [exact] at place
  apply Measures.of_position place
  calc
    parts word * 1 <<< 1022 < 2 ^ 52 * 1 <<< 1022 :=
      Nat.mul_lt_mul_of_pos_right (parts_lt word) (Binary64.shifted_pos 1022)
    _ = one := by rw [one_eq, Nat.mul_comm, Nat.one_shiftLeft 52]
    _ < ceiling := by decide

theorem nearest_fraction_mul (word : UInt64) (width : Nat) :
    nearest (parts word * 1 <<< 1022 * width) one = nearest (parts word * width) (2 ^ 52) := by
  rw [one_eq, Nat.mul_comm (1 <<< 1022), Nat.one_shiftLeft 52, Nat.mul_right_comm,
    Binary64.nearest_mul_right _ _ (Binary64.shifted_pos 1022)]

/-- The factor that a word picks. -/
def picked (low high : Binary64) (word : UInt64) : Binary64 := fraction word * (high - low) + low

section Bounds

variable {low high : Binary64} {least most : Nat} (lowHere : Measures low least)
  (highHere : Measures high most) (ordered : least ≤ most)

include lowHere highHere ordered

theorem measures_width : Measures (high - low) (nearest (most - least) 1) := by
  have width := highHere.short.nearest_le (Nat.sub_le most least)
  exact highHere.sub lowHere ordered (Nat.lt_of_le_of_lt width highHere.inside)

theorem measures_picked (word : UInt64) :
    ∃ units, Measures (picked low high word) units ∧ least ≤ units ∧ units ≤ most := by
  have inside := highHere.inside
  have part := Binary64.nearest_mul_nearest_le (parts_lt word) (most - least)
  have product := (measures_fraction word).mul (measures_width lowHere highHere ordered)
  rw [nearest_fraction_mul] at product
  generalize nearest (parts word * nearest (most - least) 1) (2 ^ 52) = share at part product
  have lower : least ≤ nearest (share + least) 1 :=
    lowHere.short.le_nearest (Nat.le_add_left least share)
  have upper : nearest (share + least) 1 ≤ most :=
    highHere.short.nearest_le (Nat.add_le_of_le_sub ordered part)
  refine ⟨_, (product (by omega)).add lowHere ?_, lower, upper⟩
  exact Nat.lt_of_le_of_lt upper inside

end Bounds

end Random

namespace FactorRange

variable {low high : Binary64} {factors : FactorRange}

theorem bounds_of_between (accepted : between low high = .ok factors) :
    factors.low = low ∧ factors.high = high := by
  unfold between at accepted
  split_ifs at accepted
  cases accepted
  exact ⟨rfl, rfl⟩

theorem exists_measures (factors : FactorRange) : ∃ least most : Nat,
    Measures factors.low least ∧ Measures factors.high most ∧ least ≤ most := by
  obtain ⟨least, lowHere⟩ := Measures.of_finite factors.low_finite factors.low_nonneg
  obtain ⟨most, highHere⟩ := Measures.of_finite factors.high_finite factors.high_nonneg
  refine ⟨least, most, lowHere, highHere, ?_⟩
  have ordered : ¬most < least := by
    rw [← highHere.lt_iff lowHere, factors.ordered]
    exact Bool.false_ne_true
  exact Nat.le_of_not_lt ordered

theorem factor_eq (factors : FactorRange) {m : Type → Type} [Monad m] [LawfulMonad m]
    [MonadExcept Fault m] (draw : m UInt64) :
    Random.factor draw factors.low factors.high =
      if factors.low.lt factors.high then Random.picked factors.low factors.high <$> draw
      else pure factors.low := by
  obtain ⟨least, most, lowHere, highHere, ordered⟩ := factors.exists_measures
  split
  next below =>
    have width := Random.measures_width lowHere highHere ordered
    have proper : Proper factors.low factors.high :=
      ⟨factors.low_finite, factors.high_finite, below, width.isFinite⟩
    rw [Random.factor_of_proper draw proper, map_eq_pure_bind]
    rfl
  next single =>
    rw [lowHere.lt_iff highHere] at single
    have reached : factors.high.le factors.low = true := (highHere.le_iff lowHere).mpr (by omega)
    exact Random.factor_of_improper draw (.inr (.inr reached))

theorem picked_within (factors : FactorRange) (word : UInt64) :
    factors.low.le (Random.picked factors.low factors.high word) = true ∧
      (Random.picked factors.low factors.high word).le factors.high = true := by
  obtain ⟨least, most, lowHere, highHere, ordered⟩ := factors.exists_measures
  obtain ⟨units, here, lower, upper⟩ := Random.measures_picked lowHere highHere ordered word
  exact ⟨(lowHere.le_iff here).mpr lower, (here.le_iff highHere).mpr upper⟩

/-- Between neighbours there is no other double, and words above the middle give the upper one. -/
example :
    Random.picked (.ofNat 1) (.ofRatio (1 <<< 52 + 1) (1 <<< 52)) 0x8000000000001000 =
      .ofRatio (1 <<< 52 + 1) (1 <<< 52) := by
  decide +kernel

theorem low_within (factors : FactorRange) :
    factors.low.le factors.low = true ∧ factors.low.le factors.high = true := by
  obtain ⟨least, most, lowHere, highHere, ordered⟩ := factors.exists_measures
  exact ⟨(lowHere.le_iff lowHere).mpr (Nat.le_refl _), (lowHere.le_iff highHere).mpr ordered⟩

end FactorRange

namespace Jitter

structure ScalesWithin (factors : FactorRange) (low high : Binary64) (delay : Duration) :
    Prop where
  draws : ∀ {m : Type → Type} [Monad m] [LawfulMonad m] [MonadExcept Fault m] (draw : m UInt64),
    Random.factor draw low high =
      if low.lt high then Random.picked low high <$> draw else pure low
  within : ∀ {σ : Type} {draw : EStateM Fault σ UInt64} {words : Nat → UInt64} {worlds : Nat → σ},
    Gives draw words worlds → ∀ place, ∃ factor made taken,
      taken = (if low.lt high then 1 else 0) ∧
      factor = (if low.lt high then Random.picked low high (words place) else low) ∧
      Random.factor draw low high (worlds place) = .ok factor (worlds (place + taken)) ∧
      low.le factor = true ∧ factor.le high = true ∧
      (range factors).apply draw delay (worlds place) = .ok made (worlds (place + taken)) ∧
      made = delay.scale factor ∧ delay.scale low ≤ made ∧ made ≤ delay.scale high

variable {σ : Type} {draw : EStateM Fault σ UInt64} {words : Nat → UInt64} {worlds : Nat → σ}

theorem factor_given (factors : FactorRange) (gives : Gives draw words worlds) (place : Nat) :
    ∃ factor taken, taken = (if factors.low.lt factors.high then 1 else 0) ∧
      factor = (if factors.low.lt factors.high then
        Random.picked factors.low factors.high (words place) else factors.low) ∧
      Random.factor draw factors.low factors.high (worlds place) =
        .ok factor (worlds (place + taken)) ∧
      factors.low.le factor = true ∧ factor.le factors.high = true := by
  rw [factors.factor_eq]
  split
  next => exact ⟨_, 1, rfl, rfl, map_of_ok (gives place) _, factors.picked_within (words place)⟩
  next => exact ⟨_, 0, rfl, rfl, rfl, factors.low_within⟩

theorem scalesWithin (factors : FactorRange) (delay : Duration) :
    ScalesWithin factors factors.low factors.high delay where
  draws := factors.factor_eq
  within gives place := by
    obtain ⟨factor, taken, count, same, given, lower, upper⟩ := factor_given factors gives place
    have made := map_of_ok given delay.scale
    exact ⟨factor, _, taken, count, same, given, lower, upper, made, rfl,
      delay.scale_mono lower, delay.scale_mono upper⟩

/-- The law of range jitter. Whatever words a source gives, the factor lies between the bounds of the
range, and the delay made between the multiples by them: multiples keep the order of the factors, up
to the longest duration. One word is taken, or none where the bounds are the same. -/
theorem range_within_bounds {low high : Binary64} {factors : FactorRange}
    (accepted : FactorRange.between low high = .ok factors) (delay : Duration) :
    ScalesWithin factors low high delay ∧ delay.Scales := by
  obtain ⟨rfl, rfl⟩ := FactorRange.bounds_of_between accepted
  exact ⟨scalesWithin factors delay, delay.scales⟩

theorem range_within_bounds_of_second : ∃ factors,
    FactorRange.between (.ofDecimal false 5 (-1)) (.ofDecimal false 15 (-1)) = .ok factors ∧
      ∃ made, (range factors).apply (laidOut fun _ => 0xFFFFFFFFFFFFFFFF) (.seconds 1) 0 =
        .ok made 1 ∧ Duration.millis 500 ≤ made ∧ made ≤ Duration.millis 1500 := by
  have accepted : ∃ factors,
      FactorRange.between (.ofDecimal false 5 (-1)) (.ofDecimal false 15 (-1)) = .ok factors := by
    rw [FactorRange.between, dif_pos (by decide +kernel), dif_pos (by decide +kernel),
      dif_pos (by decide +kernel)]
    exact ⟨_, rfl⟩
  obtain ⟨factors, accepted⟩ := accepted
  obtain ⟨_, made, taken, count, -, -, -, -, applied, -, lower, upper⟩ :=
    (range_within_bounds accepted (.seconds 1)).1.within (laidOut_gives _) 0
  have one : taken = 1 := count.trans (by decide +kernel)
  have half : (Duration.seconds 1).scale (.ofDecimal false 5 (-1)) = .millis 500 := by
    decide +kernel
  have more : (Duration.seconds 1).scale (.ofDecimal false 15 (-1)) = .millis 1500 := by
    decide +kernel
  rw [one] at applied
  rw [half] at lower
  rw [more] at upper
  exact ⟨factors, accepted, made, applied, lower, upper⟩

end Jitter
end Cadence
