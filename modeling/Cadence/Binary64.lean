import Cadence.Duration

/-!
Double-precision numbers with exact arithmetic: a finite one is a whole number of units of
2^-1074, and every operation rounds its exact result once, to the nearest, ties to even.
-/
namespace Cadence

namespace Binary64

/-- Units in the number one. -/
def one : Nat := 1 <<< 1074

def ceiling : Nat := 1 <<< 2098

def Representable (units : Nat) : Prop :=
  units < ceiling ∧ ∃ significand shift, significand < 1 <<< 53 ∧ units = significand <<< shift

end Binary64

inductive Binary64 where
  | nan
  | infinite (negative : Bool)
  | finite (negative : Bool) (units : Nat) (representable : Binary64.Representable units)
  deriving DecidableEq

namespace Binary64

def roundHalfEven (numerator denominator : Nat) : Nat :=
  let whole := numerator / denominator
  let rest := 2 * (numerator % denominator)
  if rest < denominator then whole
  else if denominator < rest then whole + 1
  else whole + whole % 2

/-- Neighbouring magnitudes that have this whole part are `1 <<< grain whole` units apart. -/
def grain (whole : Nat) : Nat := whole.log2 - 52

/-- The representable magnitude nearest to a quotient, if the range had no end. -/
def nearest (numerator denominator : Nat) : Nat :=
  let shift := grain (numerator / denominator)
  roundHalfEven numerator (denominator <<< shift) <<< shift

theorem roundHalfEven_le (numerator denominator : Nat) :
    roundHalfEven numerator denominator ≤ numerator / denominator + 1 := by
  simp only [roundHalfEven]
  split
  · omega
  · split <;> omega

theorem div_grain_lt (whole : Nat) : whole / 1 <<< grain whole < 1 <<< 53 := by
  rw [Nat.one_shiftLeft, Nat.one_shiftLeft, grain, Nat.div_lt_iff_lt_mul (Nat.two_pow_pos _),
    ← Nat.pow_add]
  exact Nat.lt_of_lt_of_le Nat.lt_log2_self (Nat.pow_le_pow_right (by decide) (by omega))

theorem nearest_significand (numerator denominator : Nat) :
    ∃ significand shift, significand < 1 <<< 53 ∧
      nearest numerator denominator = significand <<< shift := by
  let shift := grain (numerator / denominator)
  have bound : roundHalfEven numerator (denominator <<< shift) ≤ 1 <<< 53 := by
    refine Nat.le_trans (roundHalfEven_le ..) ?_
    rw [Nat.shiftLeft_eq, ← Nat.one_shiftLeft, ← Nat.div_div_eq_div_mul]
    exact div_grain_lt _
  rcases Nat.lt_or_eq_of_le bound with below | carried
  · exact ⟨_, _, below, rfl⟩
  · refine ⟨1 <<< 52, shift + 1, by decide, ?_⟩
    have doubled : (1 <<< 53 : Nat) <<< shift = (1 <<< 52) <<< (shift + 1) := by
      rw [← Nat.shiftLeft_add, ← Nat.shiftLeft_add]
      congr 1
      omega
    rw [← doubled, ← carried]
    rfl

def ofUnits (negative : Bool) (numerator denominator : Nat) : Binary64 :=
  if bounded : nearest numerator denominator < ceiling then
    .finite negative (nearest numerator denominator) ⟨bounded, nearest_significand ..⟩
  else .infinite negative

def ofRatio (numerator denominator : Nat) : Binary64 := ofUnits false (numerator * one) denominator

def ofNat (value : Nat) : Binary64 := ofRatio value 1

def ofDecimal (negative : Bool) (digits : Nat) : (exponent : Int) → Binary64
  | .ofNat power => ofUnits negative (digits * Nat.pow 10 power * one) 1
  | .negSucc power => ofUnits negative (digits * one) (Nat.pow 10 (power + 1))

def signedZero (negative : Bool) : Binary64 := ofUnits negative 0 1

def isFinite : Binary64 → Bool
  | .finite .. => true
  | _ => false

def neg : Binary64 → Binary64
  | .nan => .nan
  | .infinite negative => .infinite (!negative)
  | .finite negative units representable => .finite (!negative) units representable

def signed (negative : Bool) (units : Nat) : Int := if negative then -units else units

def add : Binary64 → Binary64 → Binary64
  | .nan, _ | _, .nan => .nan
  | .infinite a, .infinite b => if a = b then .infinite a else .nan
  | .infinite a, .finite .. => .infinite a
  | .finite .., .infinite b => .infinite b
  | .finite a m _, .finite b n _ =>
      let sum := signed a m + signed b n
      if sum = 0 then signedZero (a && b) else ofUnits (sum < 0) sum.natAbs 1

def mul : Binary64 → Binary64 → Binary64
  | .nan, _ | _, .nan => .nan
  | .infinite a, .infinite b => .infinite (a != b)
  | .infinite a, .finite b n _ => if n = 0 then .nan else .infinite (a != b)
  | .finite a m _, .infinite b => if m = 0 then .nan else .infinite (a != b)
  | .finite a m _, .finite b n _ => ofUnits (a != b) (m * n) one

instance : Neg Binary64 := ⟨neg⟩
instance : Add Binary64 := ⟨add⟩
instance : Sub Binary64 := ⟨fun a b => a + -b⟩
instance : Mul Binary64 := ⟨mul⟩

def position : Binary64 → Option Int
  | .nan => none
  | .infinite negative => some (signed negative ceiling)
  | .finite negative units _ => some (signed negative units)

def le (a b : Binary64) : Bool :=
  match a.position, b.position with
  | some x, some y => x ≤ y
  | _, _ => false

def lt (a b : Binary64) : Bool :=
  match a.position, b.position with
  | some x, some y => x < y
  | _, _ => false

def powFrom (result base : Binary64) (exponent : Nat) : (digits : Nat) → Binary64
  | 0 => result
  | digits + 1 =>
      let result := if exponent % 2 = 1 then result * base else result
      powFrom result (base * base) (exponent / 2) digits

def pow (base : Binary64) (exponent : Nat) : Binary64 :=
  powFrom (ofNat 1) base exponent (exponent.log2 + 1)

end Binary64
end Cadence
