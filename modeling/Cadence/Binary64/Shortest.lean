import Cadence.Binary64

namespace Cadence.Binary64

def magnitude? : Binary64 → Option Nat
  | .finite _ units _ => some units
  | _ => none

def overPower (units : Nat) : (exponent : Int) → Nat × Nat
  | .ofNat power => (units, one * Nat.pow 10 power)
  | .negSucc power => (units * Nat.pow 10 (power + 1), one)

def ReadsBack (units digits : Nat) (exponent : Int) : Prop :=
  (ofDecimal false digits exponent).magnitude? = some units

instance (units digits : Nat) (exponent : Int) : Decidable (ReadsBack units digits exponent) :=
  inferInstanceAs (Decidable (_ = _))

def gridPoint? (units : Nat) (exponent : Int) : Option Nat :=
  let (numerator, denominator) := overPower units exponent
  let below := numerator / denominator
  let nearerBelow := 2 * (numerator % denominator) < denominator
  if ReadsBack units below exponent ∧ (nearerBelow ∨ ¬ReadsBack units (below + 1) exponent) then
    some below
  else if ReadsBack units (below + 1) exponent then some (below + 1)
  else none

/-- Digits and exponent on the coarsest decimal grid that holds a point reading back. Grids
coarser than `10 ^ 309` hold none, and one unit is wider than `10 ^ -324`. -/
def shortest? (units : Nat) : Option (Nat × Int) :=
  (List.range 634).findSome? fun finer : Nat =>
    let exponent := 309 - (finer : Int)
    (gridPoint? units exponent).map (·, exponent)

def positional (digits : Nat) : (exponent : Int) → String
  | .ofNat power => toString (digits * Nat.pow 10 power)
  | .negSucc power =>
      let places := power + 1
      let unit := Nat.pow 10 places
      let fraction := toString (digits % unit)
      toString (digits / unit) ++ "." ++
        String.ofList (List.replicate (places - fraction.length) '0') ++ fraction

def text : Binary64 → String
  | .nan => "NaN"
  | .infinite negative => (if negative then "-" else "") ++ "inf"
  | .finite negative units _ =>
      (if negative then "-" else "") ++
        ((shortest? units).map fun (digits, exponent) => positional digits exponent).getD "0"

end Cadence.Binary64
