import DeskCalc.Binary64.Basic
import DeskCalc.Decimal.Basic

/-!
Rounding to doubles: the double nearest to a fraction, a tie going to the even significand. A decimal
is read as the double nearest to the number it denotes, infinity when that is out of range.
-/

namespace DeskCalc

/-- The natural number nearest to a fraction, a half going to the even neighbour. -/
def roundHalfEven (numerator denominator : Nat) : Nat :=
  let quotient := numerator / denominator
  let remainder := numerator % denominator
  if 2 * remainder < denominator then quotient
  else if denominator < 2 * remainder then quotient + 1
  else quotient + quotient % 2

/-- The natural number nearest to a fraction, a half going up. -/
def roundHalfUp (numerator denominator : Nat) : Nat :=
  (2 * numerator + denominator) / (2 * denominator)

namespace Binary64

/-- The ordinal of the double nearest to a fraction. The step is chosen so that the significand has 53
bits, or is one unit if the fraction is small; a significand rounded up to `2 ^ 53` carries into the
exponent by itself. -/
def nearest (numerator denominator : Nat) : Nat :=
  let inUnits := numerator <<< depth
  let step := (inUnits / denominator).log2 - 52
  min (step * binade + roundHalfEven inUnits (denominator <<< step)) infinite

end Binary64

namespace Decimal

/-- The ordinal of the double nearest to a decimal. Numbers from `10 ^ 310` on are beyond the largest
double and numbers below `10 ^ (-331)` are less than half a unit: they are decided by their size, however
long their exponent. -/
def ordinal (d : Decimal) : Nat :=
  if d.coefficient = 0 then 0
  else if 310 ≤ d.leading then Binary64.infinite
  else if d.leading < -331 then 0
  else Binary64.nearest d.fraction.1 d.fraction.2

def toFloat (d : Decimal) : Float := Binary64.ofOrdinal d.ordinal

end Decimal

end DeskCalc
