import DeskCalc.Binary64.Power
import DeskCalc.Binary64.Shortest

/-!
Rounding of a double's exact value: to a number of significant digits, halves going to the even digit, and
to a number of decimal places, halves going away from zero.
-/

namespace DeskCalc.Binary64

/-- The magnitude at ordinal `k` rounded to `count` significant digits. No double has digits after place
`depth`, so that further digits change nothing. -/
def significant (k count : Nat) : Decimal :=
  if k = 0 then ⟨0, 0⟩
  else
    let place := max (leading (fraction k).1 (fraction k).2 - count + 1) (-depth)
    let inUnits := inPlaces (fraction k).1 (fraction k).2 place
    (Decimal.mk (roundHalfEven inUnits.1 inUnits.2) place).trimmed

def isWhole (x : Float) : Bool := (fraction (ordinal x)).1 % (fraction (ordinal x)).2 == 0

/-- From this ordinal on, the ordinal of `2 ^ 52`, all finite doubles are whole. -/
def wholeFrom : Nat := 1075 * binade

/-- The ordinal of a whole number divided by the magnitude at ordinal `k`. Zero divided by zero is no
number, and its ordinal is above that of infinity. -/
def divided (whole k : Nat) : Nat :=
  if k = 0 then (if whole = 0 then infinite + 1 else infinite)
  else nearest (whole * (fraction k).2) (fraction k).1

/-- The double `x` rounded to a number of decimal places: `x` is multiplied by the power of ten, rounded
to a whole number and divided again. A product that is not below `2 ^ 52` in magnitude has nothing left to
round, and `x` is kept. The places are a word in two's complement: negative ones stand before the point. -/
def roundToPlaces (x : Float) (places : UInt32) : Float :=
  let scale := tenTo places.toInt32.toInt
  let y := x * scale
  if ordinal y < wholeFrom then
    let whole := roundHalfUp (fraction (ordinal y)).1 (fraction (ordinal y)).2
    let rounded := ofOrdinal (divided whole (ordinal scale))
    if isNegative y then -rounded else rounded
  else x

end DeskCalc.Binary64
