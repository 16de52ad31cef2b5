/-!
What a user can set: how results are written, below which determinant a matrix counts as singular, and
how long an expression may be.
-/

namespace DeskCalc

structure Settings where
  /-- Significant digits of the entries of a matrix. -/
  significantDigits : Nat := 4
  /-- Decimal places of a determinant. -/
  determinantPlaces : UInt32 := 10
  /-- A matrix whose determinant is smaller in magnitude is not inverted. -/
  singularThreshold : Float := 1e-12
  /-- The largest number of characters of an expression. -/
  expressionLimit : Nat := 2000

/-- Every field brought into its useful range. A threshold that is no bound falls back to the default. -/
def Settings.clamped (s : Settings) : Settings where
  significantDigits := min (max s.significantDigits 1) 17
  determinantPlaces := min s.determinantPlaces 15
  singularThreshold :=
    if !s.singularThreshold.isFinite || s.singularThreshold < 0 then 1e-12
    else s.singularThreshold
  expressionLimit := min (max s.expressionLimit 1) 10000

end DeskCalc
