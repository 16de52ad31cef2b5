import DeskCalc.Binary64.Nearest

/-!
The shortest decimal of a double: of all decimals that are read back as the same double, one with the
fewest digits, and of those the nearest; an exact tie goes up. Seventeen digits always suffice.
-/

namespace DeskCalc.Binary64

/-- The exponent of ten at which the first digit of a positive fraction stands. -/
def leading (numerator denominator : Nat) : Int :=
  let estimate : Int := (Decimal.digitCount numerator : Int) - Decimal.digitCount denominator
  if denominator * Decimal.tenTo estimate.toNat ≤ numerator * Decimal.tenTo (-estimate).toNat then
    estimate
  else estimate - 1

/-- A numerator and a denominator of a fraction divided by `10 ^ place`. -/
def inPlaces (numerator denominator : Nat) (place : Int) : Nat × Nat :=
  (numerator * Decimal.tenTo (-place).toNat, denominator * Decimal.tenTo place.toNat)

/-- The exact decimal expansion of the magnitude at ordinal `k`. -/
def expansion (k : Nat) : Decimal := ⟨units k * Nat.pow 5 depth, -depth⟩

/-- Of the two multiples of `10 ^ place` around the magnitude at ordinal `k`, the one that is read back
as this magnitude; if both are, the nearer. -/
def neighbour? (k : Nat) (place : Int) : Option Decimal :=
  let inUnits := inPlaces (fraction k).1 (fraction k).2 place
  let below : Decimal := ⟨inUnits.1 / inUnits.2, place⟩
  let above : Decimal := ⟨inUnits.1 / inUnits.2 + 1, place⟩
  if below.ordinal = k then
    if above.ordinal = k ∧ inUnits.2 ≤ 2 * (inUnits.1 % inUnits.2) then some above else some below
  else if above.ordinal = k then some above
  else none

/-- The shortest decimal of the magnitude at ordinal `k`: places are tried from the first digit on. -/
def shortest (k : Nat) : Decimal :=
  if k = 0 then ⟨0, 0⟩
  else
    let first := leading (fraction k).1 (fraction k).2
    match (List.range 17).findSome? (fun i : Nat => neighbour? k (first - i)) with
    | some d => d.trimmed
    | none => (expansion k).trimmed

end DeskCalc.Binary64
