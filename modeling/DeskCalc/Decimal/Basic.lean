/-!
Unsigned decimals. A decimal is a coefficient times a power of ten; two decimals may denote the same
number, and `Decimal.trimmed` chooses the one whose coefficient does not end in a zero.
-/

namespace DeskCalc

/-- The number `coefficient * 10 ^ exponent`. -/
structure Decimal where
  coefficient : Nat
  exponent : Int
deriving DecidableEq, Repr

namespace Decimal

def tenTo (n : Nat) : Nat := Nat.pow 10 n

/-- How many decimal digits a natural number is written with; zero has one. -/
def digitCount (n : Nat) : Nat := (Nat.toDigits 10 n).length

theorem digitCount_pos (n : Nat) : 0 < digitCount n := Nat.length_toDigits_pos

theorem digitCount_le_iff {n k : Nat} (h : 0 < k) : digitCount n ≤ k ↔ n < tenTo k :=
  Nat.length_toDigits_le_iff (by decide) h

def digits (d : Decimal) : List Char := Nat.toDigits 10 d.coefficient

/-- The exponent of ten at which the first digit of the coefficient stands. -/
def leading (d : Decimal) : Int := d.exponent + digitCount d.coefficient - 1

/-- Removes the zeros at the end of a coefficient and counts them into the exponent. -/
def trimCoefficient (coefficient : Nat) (exponent : Int) : Decimal :=
  if h : coefficient ≠ 0 ∧ coefficient % 10 = 0 then
    trimCoefficient (coefficient / 10) (exponent + 1)
  else
    ⟨coefficient, exponent⟩
termination_by coefficient
decreasing_by omega

/-- The same number with no zero at the end of the coefficient. -/
def trimmed (d : Decimal) : Decimal := trimCoefficient d.coefficient d.exponent

/-- A numerator and a denominator of the number. -/
def fraction (d : Decimal) : Nat × Nat :=
  (d.coefficient * tenTo d.exponent.toNat, tenTo (-d.exponent).toNat)

end Decimal

end DeskCalc
