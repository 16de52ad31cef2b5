import DeskCalc.Decimal.Basic

/-!
The two ways to write out a decimal: positional, with as many zeros as the exponent asks for, and
scientific, with one digit before the point and the exponent after it.
-/

namespace DeskCalc.Decimal

/-- A point before the last `places` digits, with zeros in front if there are fewer. -/
def pointed (digits : List Char) (places : Nat) : List Char :=
  if places < digits.length then
    digits.take (digits.length - places) ++ '.' :: digits.drop (digits.length - places)
  else
    '0' :: '.' :: (List.replicate (places - digits.length) '0' ++ digits)

/-- All digits of the number in their places; a point only if there are places after it. -/
def positional (d : Decimal) : List Char :=
  if 0 ≤ d.exponent then d.digits ++ List.replicate d.exponent.toNat '0'
  else pointed d.digits (-d.exponent).toNat

/-- The first digit, then the others after a point if there are any. -/
def mantissa (d : Decimal) : List Char :=
  match d.digits with
  | first :: second :: rest => first :: '.' :: second :: rest
  | digits => digits

end DeskCalc.Decimal
