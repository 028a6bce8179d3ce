/-!
Waiting times: whole nanoseconds below 2^64 seconds. Arithmetic stops at the longest duration.
-/
namespace Cadence

def Duration.maxNanos : Nat := UInt64.size * 1000000000 - 1

@[ext] structure Duration where
  nanos : Nat
  nanos_le : nanos ≤ Duration.maxNanos
  deriving DecidableEq

namespace Duration

def ofNanos (count : Nat) : Duration := ⟨min count maxNanos, Nat.min_le_right ..⟩

def zero : Duration := ofNanos 0
def longest : Duration := ofNanos maxNanos
def millis (count : Nat) : Duration := ofNanos (count * 1000000)
def seconds (count : Nat) : Duration := ofNanos (count * 1000000000)

instance : Inhabited Duration := ⟨zero⟩
instance : Add Duration := ⟨fun a b => ofNanos (a.nanos + b.nanos)⟩
instance : LE Duration := ⟨fun a b => a.nanos ≤ b.nanos⟩
instance : LT Duration := ⟨fun a b => a.nanos < b.nanos⟩
instance (a b : Duration) : Decidable (a ≤ b) := inferInstanceAs (Decidable (a.nanos ≤ b.nanos))
instance (a b : Duration) : Decidable (a < b) := inferInstanceAs (Decidable (a.nanos < b.nanos))
instance : Min Duration := minOfLe
instance : Max Duration := maxOfLe

def times (count : Nat) (d : Duration) : Duration := ofNanos (count * d.nanos)

/-- Merges two delays of which either may be absent; a single one stands for itself. -/
def merge (both : Duration → Duration → Duration) : Option Duration → Option Duration → Duration
  | some a, some b => both a b
  | some a, none | none, some a => a
  | none, none => zero

def isZero (d : Duration) : Bool := d.nanos == 0

theorem nanos_ofNanos (count : Nat) : (ofNanos count).nanos = min count maxNanos := rfl

@[simp] theorem nanos_zero : zero.nanos = 0 := Nat.zero_min ..

theorem nanos_add (a b : Duration) : (a + b).nanos = min (a.nanos + b.nanos) maxNanos := rfl

theorem nanos_max (a b : Duration) : (max a b).nanos = max a.nanos b.nanos :=
  apply_ite nanos ..

theorem nanos_min (a b : Duration) : (min a b).nanos = min a.nanos b.nanos :=
  apply_ite nanos ..

theorem add_assoc (a b c : Duration) : a + b + c = a + (b + c) := by
  ext
  simp only [nanos_add]
  omega

theorem add_zero (d : Duration) : d + zero = d := by
  ext
  rw [nanos_add, nanos_zero, Nat.add_zero, Nat.min_eq_left d.nanos_le]

theorem zero_add (d : Duration) : zero + d = d := by
  ext
  rw [nanos_add, nanos_zero, Nat.zero_add, Nat.min_eq_left d.nanos_le]

theorem max_assoc (a b c : Duration) : max (max a b) c = max a (max b c) := by
  ext
  simp only [nanos_max, Nat.max_assoc]

theorem min_assoc (a b c : Duration) : min (min a b) c = min a (min b c) := by
  ext
  simp only [nanos_min, Nat.min_assoc]

instance : Std.Associative (min : Duration → Duration → Duration) := ⟨min_assoc⟩

def fractionDigits (unit : Nat) : (places rest : Nat) → List Char
  | 0, _ => []
  | places + 1, rest =>
      if rest = 0 then []
      else Nat.digitChar (10 * rest / unit) :: fractionDigits unit places (10 * rest % unit)

def decimal (unit places nanos : Nat) : String :=
  match fractionDigits unit places (nanos % unit) with
  | [] => toString (nanos / unit)
  | digits => toString (nanos / unit) ++ "." ++ String.ofList digits

def text (d : Duration) : String :=
  if 1000000000 ≤ d.nanos then decimal 1000000000 9 d.nanos ++ "s"
  else if 1000000 ≤ d.nanos then decimal 1000000 6 d.nanos ++ "ms"
  else if 1000 ≤ d.nanos then decimal 1000 3 d.nanos ++ "µs"
  else decimal 1 0 d.nanos ++ "ns"

end Duration
end Cadence
