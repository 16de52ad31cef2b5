import DeskCalc.Binary64.Rounded
import DeskCalc.Decimal.Layout

/-!
The written forms of a number. A `Style` says when a number is written positionally and how its
exponent is written otherwise; the digits are chosen apart from it, the shortest ones or a given number
of significant ones.
-/

namespace DeskCalc

/-- How a number is written once its digits are chosen. -/
structure Style where
  /-- The exponents of the first digit for which no exponent is written. -/
  isPositional : Int → Bool
  /-- Whether a whole number in positional form ends in `.0`. -/
  keepsPoint : Bool
  /-- The exponent, its mark included. -/
  exponent : Int → List Char
  /-- The text of NaN. -/
  nan : List Char

namespace Style

/-- An exponent with its sign and at least two digits: `e+07`, `e-310`. -/
def paddedExponent (e : Int) : List Char :=
  let digits := Nat.toDigits 10 e.natAbs
  'e' :: (if e < 0 then '-' else '+') :: (if digits.length < 2 then '0' :: digits else digits)

/-- An exponent with a sign only if it is negative: `e7`, `e-310`. -/
def bareExponent (e : Int) : List Char :=
  let digits := Nat.toDigits 10 e.natAbs
  'e' :: (if e < 0 then '-' :: digits else digits)

/-- Numbers in tokens, trees and messages: always positional. -/
def plain : Style := ⟨fun _ => true, false, bareExponent, ['N', 'a', 'N']⟩

/-- Numbers shown as a result: positional from `10 ^ (-4)` up to `10 ^ 16`, always with a point there. -/
def scalar : Style := ⟨fun e => -4 ≤ e && e < 16, true, paddedExponent, ['n', 'a', 'n']⟩

/-- Numbers in the journal: as results, but with the exponent written bare. -/
def journal : Style := ⟨fun e => -4 ≤ e && e < 16, true, bareExponent, ['N', 'a', 'N']⟩

/-- Numbers with `count` significant digits, as entries of a matrix: positional from `10 ^ (-4)` up to
the last of the digits. -/
def general (count : Nat) : Style :=
  ⟨fun e => -4 ≤ e && e < count, false, paddedExponent, ['n', 'a', 'n']⟩

def decimalText (s : Style) (d : Decimal) : List Char :=
  if d.coefficient = 0 || s.isPositional d.leading then
    if s.keepsPoint && 0 ≤ d.exponent then d.positional ++ ['.', '0'] else d.positional
  else d.mantissa ++ s.exponent d.leading

/-- The text of a double whose digits are chosen by `digitsOf` from the ordinal of its magnitude. -/
def text (s : Style) (digitsOf : Nat → Decimal) (x : Float) : List Char :=
  let k := Binary64.ordinal x
  if Binary64.infinite < k then s.nan
  else
    let unsigned := if k = Binary64.infinite then ['i', 'n', 'f'] else s.decimalText (digitsOf k)
    if Binary64.isNegative x then '-' :: unsigned else unsigned

end Style

def plainText (x : Float) : String := String.ofList (Style.plain.text Binary64.shortest x)

def scalarText (x : Float) : String := String.ofList (Style.scalar.text Binary64.shortest x)

def journalText (x : Float) : String := String.ofList (Style.journal.text Binary64.shortest x)

/-- A number with at most `digits` significant digits, at least one. -/
def generalText (x : Float) (digits : Nat) : String :=
  let count := max digits 1
  String.ofList ((Style.general count).text (Binary64.significant · count) x)

/-- A number rounded to `places` decimal places, as results show it. -/
def roundedText (x : Float) (places : UInt32) : String :=
  scalarText (Binary64.roundToPlaces x places)

end DeskCalc
