import Cadence.Duration

namespace Cadence

def Wide.greatest : Nat := UInt64.size * UInt64.size - 1

@[ext] structure Wide where
  count : Nat
  count_le : count ≤ Wide.greatest
  deriving DecidableEq

namespace Wide

def ofNat (number : Nat) : Wide := ⟨min number greatest, Nat.min_le_right ..⟩

instance : Add Wide := ⟨fun a b => ofNat (a.count + b.count)⟩
instance : Mul Wide := ⟨fun a b => ofNat (a.count * b.count)⟩
instance : LE Wide := ⟨fun a b => a.count ≤ b.count⟩
instance (a b : Wide) : Decidable (a ≤ b) := inferInstanceAs (Decidable (a.count ≤ b.count))
instance : Min Wide := minOfLe

def times? (a b : Wide) : Option Wide :=
  if within : a.count * b.count ≤ greatest then some ⟨a.count * b.count, within⟩ else none

theorem count_ofNat (number : Nat) : (ofNat number).count = min number greatest := rfl

theorem count_add (a b : Wide) : (a + b).count = min (a.count + b.count) greatest := rfl

theorem count_mul (a b : Wide) : (a * b).count = min (a.count * b.count) greatest := rfl

theorem count_min (a b : Wide) : (min a b).count = min a.count b.count :=
  apply_ite count ..

end Wide

namespace Duration

theorem maxNanos_le_greatest : maxNanos ≤ Wide.greatest := by decide

def wide (d : Duration) : Wide := ⟨d.nanos, Nat.le_trans d.nanos_le maxNanos_le_greatest⟩

/-- Whole seconds and the nanoseconds left over. Where the seconds are no word of 64 bits the longest
duration is given. -/
def ofWide (nanos : Wide) : Duration :=
  if fits : nanos.count / 1000000000 < UInt64.size then
    ⟨nanos.count / 1000000000 * 1000000000 + nanos.count % 1000000000, by
      simp only [maxNanos]
      omega⟩
  else .longest

theorem nanos_longest : longest.nanos = maxNanos := by
  rw [longest, nanos_ofNanos, Nat.min_self]

@[simp] theorem count_wide (d : Duration) : d.wide.count = d.nanos := rfl

theorem nanos_ofWide (nanos : Wide) : (ofWide nanos).nanos = min nanos.count maxNanos := by
  rw [ofWide]
  split
  next fits =>
    have parts : nanos.count / 1000000000 * 1000000000 + nanos.count % 1000000000 = nanos.count :=
      Nat.div_add_mod' ..
    have below : nanos.count ≤ maxNanos := by
      simp only [maxNanos]
      omega
    rw [Nat.min_eq_left below]
    exact parts
  next tooLong =>
    have above : maxNanos ≤ nanos.count := by
      simp only [maxNanos]
      omega
    rw [nanos_longest, Nat.min_eq_right above]

theorem ofWide_ofNat (number : Nat) : ofWide (.ofNat number) = ofNanos number := by
  ext
  have longer := maxNanos_le_greatest
  rw [nanos_ofWide, nanos_ofNanos, Wide.count_ofNat]
  omega

end Duration
end Cadence
