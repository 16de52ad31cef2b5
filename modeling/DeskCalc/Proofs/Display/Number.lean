import DeskCalc.Display.Number
import DeskCalc.Proofs.Decimal.Reading
import DeskCalc.Proofs.Decimal.Value

/-!
Written numbers are read back. In every style the text of a decimal is a numeral of the same value, with zeros
added where the places ask for them, and an exponent that is written as numerals have it. So a finite double
whose digits are the shortest ones is read as itself, and any other digits as the double nearest to them.
-/

namespace DeskCalc

namespace Numeral

theorem valueOf_zeros (n : Nat) : valueOf (List.replicate n '0') = 0 := by
  rw [valueOf, Nat.ofDigitChars_replicate_zero, Nat.mul_zero]

theorem valueOf_toDigits (n : Nat) : valueOf (Nat.toDigits 10 n) = n := Nat.ofDigitChars_ten_toDigits

theorem isDigit_of_mem_zeros {n : Nat} {c : Char} (h : c ∈ List.replicate n '0') : c.isDigit = true := by
  rw [List.eq_of_mem_replicate h]
  rfl

theorem isDigit_of_mem_toDigits {n : Nat} {c : Char} (h : c ∈ Nat.toDigits 10 n) : c.isDigit = true :=
  Nat.isDigit_of_mem_toDigits (by decide) (by decide) h

/-- Whether the digits after the point, if there is a point, end as `digits` do. -/
def EndsAs (n : Numeral) (digits : List Char) : Prop := ∀ ds ∈ n.fraction?, ds.getLast? = digits.getLast?

theorem endsAs_of_eq_none {n : Numeral} {digits : List Char} (h : n.fraction? = none) : n.EndsAs digits := by
  intro ds hds
  rw [h] at hds
  cases hds

end Numeral

namespace Decimal

open Numeral

variable (d : Decimal)

theorem isDigit_of_mem_digits {c : Char} (h : c ∈ d.digits) : c.isDigit = true := isDigit_of_mem_toDigits h

theorem digits_ne_nil : d.digits ≠ [] := Nat.toDigits_ne_nil

theorem valueOf_digits : valueOf d.digits = d.coefficient := valueOf_toDigits d.coefficient

theorem isDigit_of_mem_positional (h : 0 ≤ d.exponent) {c : Char} (hc : c ∈ d.positional) : c.isDigit = true := by
  rw [positional, if_pos h] at hc
  rcases List.mem_append.1 hc with hc | hc
  · exact d.isDigit_of_mem_digits hc
  · exact isDigit_of_mem_zeros hc

/-- A whole number in positional form, with `.0` after it or without. -/
theorem exists_numeral_whole (h : 0 ≤ d.exponent) (point : Bool) :
    ∃ n : Numeral, n.text = (if point then d.positional ++ ['.', '0'] else d.positional) ∧
      n.decimal.value = d.value ∧ n.exponent? = none ∧ (point = false → n.EndsAs d.digits) := by
  have hwhole : ∀ c ∈ d.positional, c.isDigit = true := fun c hc => d.isDigit_of_mem_positional h hc
  have hne : d.positional ≠ [] := by
    rw [positional, if_pos h]
    exact List.append_ne_nil_of_left_ne_nil d.digits_ne_nil _
  have hvalue : (valueOf d.positional : ℚ) = d.value := by
    obtain ⟨m, hm⟩ := Int.eq_ofNat_of_zero_le h
    rw [positional, if_pos h, valueOf_append, valueOf_zeros, valueOf_digits, value, hm]
    simp [mul_comm]
  cases point with
  | false =>
      refine ⟨⟨d.positional, none, none, .inl hne, hwhole, by simp⟩, ?_, ?_, rfl, fun _ => endsAs_of_eq_none rfl⟩
      · simp [text, fractionText, exponentText]
      · rw [← hvalue]
        simp [decimal, Numeral.fraction, value]
  | true =>
      refine ⟨⟨d.positional, some ['0'], none, .inl hne, hwhole, by simp⟩, ?_, ?_, rfl, by simp⟩
      · simp [text, fractionText, exponentText]
      · have hzero : valueOf ['0'] = 0 := rfl
        rw [← hvalue]
        simp only [decimal, Numeral.fraction, Option.getD_some, Option.elim_none, valueOf_append, hzero,
          List.length_singleton, value]
        norm_num [mul_right_comm]

theorem exists_numeral_pointed {digits : List Char} {places : Nat} (hdigits : ∀ c ∈ digits, c.isDigit = true)
    (hne : digits ≠ []) (hplaces : 0 < places) :
    ∃ n : Numeral, n.text = pointed digits places ∧ n.decimal = ⟨valueOf digits, -places⟩ ∧
      n.exponent? = none ∧ n.EndsAs digits := by
  have hlength := List.length_pos_iff.2 hne
  unfold pointed
  split
  next h =>
    refine ⟨⟨digits.take (digits.length - places), some (digits.drop (digits.length - places)), none,
      .inl ?_, fun c hc => hdigits c (List.mem_of_mem_take hc), ?_⟩, ?_, ?_, rfl, ?_⟩
    · rw [Ne, List.take_eq_nil_iff]
      exact not_or.2 ⟨by omega, hne⟩
    · rintro ds ⟨⟩ c hc
      exact hdigits c (List.mem_of_mem_drop hc)
    · simp [text, fractionText, exponentText]
    · have hdrop : (digits.drop (digits.length - places)).length = places := by
        rw [List.length_drop]
        omega
      simp only [decimal, Numeral.fraction, Option.getD_some, List.take_append_drop, hdrop, Option.elim_none,
        zero_sub]
    · rintro ds ⟨⟩
      rw [List.getLast?_drop, if_neg (by omega)]
  next h =>
    refine ⟨⟨['0'], some (List.replicate (places - digits.length) '0' ++ digits), none,
      .inl (by simp), by simp, ?_⟩, ?_, ?_, rfl, ?_⟩
    · rintro ds ⟨⟩ c hc
      rcases List.mem_append.1 hc with hc | hc
      · exact isDigit_of_mem_zeros hc
      · exact hdigits c hc
    · simp [text, fractionText, exponentText]
    · have hpad : (List.replicate (places - digits.length) '0' ++ digits).length = places := by
        rw [List.length_append, List.length_replicate]
        omega
      have hzero : valueOf ['0'] = 0 := rfl
      simp only [decimal, Numeral.fraction, Option.getD_some, hpad, Option.elim_none, zero_sub, valueOf_append,
        valueOf_zeros, hzero, Nat.mul_zero, Nat.zero_add]
    · rintro ds ⟨⟩
      rw [List.getLast?_append, List.getLast?_eq_some_getLast hne, Option.some_or]

theorem exists_numeral_positional (point : Bool) :
    ∃ n : Numeral,
      n.text = (if point && decide (0 ≤ d.exponent) then d.positional ++ ['.', '0'] else d.positional) ∧
      n.decimal.value = d.value ∧ n.exponent? = none ∧ (point = false → n.EndsAs d.digits) := by
  by_cases h : 0 ≤ d.exponent
  · simpa [h] using d.exists_numeral_whole h point
  · have hplaces : 0 < (-d.exponent).toNat := by omega
    obtain ⟨n, htext, hdecimal, hnone, hends⟩ := exists_numeral_pointed
      (fun c hc => d.isDigit_of_mem_digits hc) d.digits_ne_nil hplaces
    refine ⟨n, ?_, ?_, hnone, fun _ => hends⟩
    · simp [h, htext, positional]
    · have hexponent : -(((-d.exponent).toNat : ℕ) : ℤ) = d.exponent := by omega
      rw [hdecimal, valueOf_digits, hexponent]

theorem exists_numeral_scientific (e : Numeral.Exponent) (h : e.value = d.leading) :
    ∃ n : Numeral, n.text = d.mantissa ++ e.text ∧ n.decimal = d ∧ n.exponent? = some e ∧ n.whole.length = 1 ∧
      n.EndsAs d.digits := by
  have hdigits := fun c hc => d.isDigit_of_mem_digits (c := c) hc
  have hlength : d.leading = d.exponent + d.digits.length - 1 := rfl
  have hvalue := d.valueOf_digits
  unfold mantissa
  split
  next first second rest heq =>
    rw [heq] at hdigits hlength hvalue
    refine ⟨⟨[first], some (second :: rest), some e, .inl (by simp), ?_, ?_⟩, ?_, ?_, rfl, rfl, ?_⟩
    · rintro c hc
      exact hdigits c (by simp_all)
    · rintro ds ⟨⟩ c hc
      exact hdigits c (List.mem_cons_of_mem _ hc)
    · simp [text, fractionText, exponentText]
    · have hexponent : d.leading - ((second :: rest).length : ℤ) = d.exponent := by
        rw [hlength, List.length_cons (a := first)]
        push_cast
        ring
      simp only [decimal, Numeral.fraction, Option.getD_some, Option.elim_some, List.singleton_append, hvalue, h,
        hexponent]
    · rintro ds ⟨⟩
      rw [heq, List.getLast?_cons_cons]
  next hshort =>
    have hone : d.digits.length = 1 := by
      obtain ⟨first, rest, heq⟩ := List.exists_cons_of_ne_nil d.digits_ne_nil
      cases rest with
      | nil => rw [heq]; rfl
      | cons second rest => exact absurd heq (hshort first second rest)
    refine ⟨⟨d.digits, none, some e, .inl d.digits_ne_nil, hdigits, by simp⟩, ?_, ?_, rfl, hone,
      endsAs_of_eq_none rfl⟩
    · simp [text, fractionText, exponentText]
    · have hexponent : d.leading = d.exponent := by
        rw [hlength, hone]
        omega
      simp only [decimal, Numeral.fraction, Option.getD_none, Option.elim_some, List.append_nil,
        List.length_nil, hvalue, h, hexponent, Nat.cast_zero, sub_zero]

end Decimal

namespace Style

/-- An exponent that is written as numerals have it. -/
def WritesExponents (s : Style) : Prop := ∀ e, ∃ x : Numeral.Exponent, x.text = s.exponent e ∧ x.value = e

theorem exists_exponent {sign digits : List Char} (hsign : sign = [] ∨ sign = ['+'] ∨ sign = ['-'])
    {e : Int} (hminus : sign = ['-'] ↔ e < 0) (hdigits : ∀ c ∈ digits, c.isDigit = true) (hne : digits ≠ [])
    (hvalue : Numeral.valueOf digits = e.natAbs) :
    ∃ x : Numeral.Exponent, x.text = 'e' :: (sign ++ digits) ∧ x.value = e := by
  refine ⟨⟨'e', sign, digits, .inl rfl, hsign, hne, hdigits⟩, rfl, ?_⟩
  simp only [Numeral.Exponent.value, hminus, hvalue]
  split <;> omega

theorem exists_paddedExponent (e : Int) :
    ∃ x : Numeral.Exponent, x.text = paddedExponent e ∧ x.value = e := by
  have hdigits : ∀ c ∈ Nat.toDigits 10 e.natAbs, c.isDigit = true :=
    fun c hc => Numeral.isDigit_of_mem_toDigits hc
  have hvalue := Numeral.valueOf_toDigits e.natAbs
  have hzero : Numeral.valueOf ('0' :: Nat.toDigits 10 e.natAbs) = e.natAbs := hvalue
  have hsign : ∀ digits : List Char, (∀ c ∈ digits, c.isDigit = true) → digits ≠ [] →
      Numeral.valueOf digits = e.natAbs →
      ∃ x : Numeral.Exponent, x.text = 'e' :: (if e < 0 then '-' else '+') :: digits ∧ x.value = e := by
    intro digits hdigits hne hvalue
    by_cases h : e < 0
    · rw [if_pos h]
      exact exists_exponent (.inr (.inr rfl)) (iff_of_true rfl h) hdigits hne hvalue
    · rw [if_neg h]
      exact exists_exponent (.inr (.inl rfl)) (iff_of_false (by decide) h) hdigits hne hvalue
  unfold paddedExponent
  simp only
  by_cases hlength : (Nat.toDigits 10 e.natAbs).length < 2
  · rw [if_pos hlength]
    exact hsign _ (List.forall_mem_cons.2 ⟨rfl, hdigits⟩) (List.cons_ne_nil _ _) hzero
  · rw [if_neg hlength]
    exact hsign _ hdigits Nat.toDigits_ne_nil hvalue

theorem exists_bareExponent (e : Int) : ∃ x : Numeral.Exponent, x.text = bareExponent e ∧ x.value = e := by
  have hdigits : ∀ c ∈ Nat.toDigits 10 e.natAbs, c.isDigit = true :=
    fun c hc => Numeral.isDigit_of_mem_toDigits hc
  have hvalue := Numeral.valueOf_toDigits e.natAbs
  unfold bareExponent
  by_cases h : e < 0
  · simp only [if_pos h]
    exact exists_exponent (.inr (.inr rfl)) (iff_of_true rfl h) hdigits Nat.toDigits_ne_nil hvalue
  · simp only [if_neg h]
    exact exists_exponent (.inl rfl) (iff_of_false (by simp) h) hdigits Nat.toDigits_ne_nil hvalue

theorem plain_writesExponents : plain.WritesExponents := exists_bareExponent

theorem scalar_writesExponents : scalar.WritesExponents := exists_paddedExponent

theorem general_writesExponents (count : Nat) : (general count).WritesExponents := exists_paddedExponent

section Text

variable {s : Style} (hs : s.WritesExponents)
include hs

/-- The text of a decimal is a numeral of its value. -/
theorem exists_numeral_decimalText (d : Decimal) :
    ∃ n : Numeral, n.text = s.decimalText d ∧ n.decimal.value = d.value := by
  unfold decimalText
  split
  · obtain ⟨n, hn, hvalue, -⟩ := d.exists_numeral_positional s.keepsPoint
    exact ⟨n, hn, hvalue⟩
  · obtain ⟨e, he, hvalue⟩ := hs d.leading
    obtain ⟨n, hn, hd, -⟩ := d.exists_numeral_scientific e hvalue
    exact ⟨n, by rw [hn, he], by rw [hd]⟩

/-- The text of a finite double is a numeral, with a minus before it if the double is negative. -/
theorem exists_numeral_text (digitsOf : Nat → Decimal) {x : Float} (hx : x.isFinite = true) :
    ∃ n : Numeral,
      s.text digitsOf x = (if Binary64.isNegative x then ['-'] else []) ++ n.text ∧
      n.decimal.toFloat = (digitsOf (Binary64.ordinal x)).toFloat := by
  have hfinite := Binary64.isFinite_iff.1 hx
  obtain ⟨n, hn, hvalue⟩ := exists_numeral_decimalText hs (digitsOf (Binary64.ordinal x))
  refine ⟨n, ?_, by rw [Decimal.toFloat, Decimal.ordinal_congr hvalue]; rfl⟩
  simp only [text, if_neg (Nat.not_lt.2 hfinite.le), if_neg hfinite.ne, hn]
  split <;> rfl

/-- Every double has a text, also what is no number. -/
theorem text_ne_nil (hnan : s.nan ≠ []) (digitsOf : Nat → Decimal) (x : Float) : s.text digitsOf x ≠ [] := by
  have hdecimal : s.decimalText (digitsOf (Binary64.ordinal x)) ≠ [] := by
    obtain ⟨n, hn, -⟩ := exists_numeral_decimalText hs (digitsOf (Binary64.ordinal x))
    obtain ⟨c, cs, hcs, -⟩ := n.exists_text_eq_cons
    rw [← hn, hcs]
    exact List.cons_ne_nil c cs
  unfold text
  simp only
  split
  · exact hnan
  split
  · exact List.cons_ne_nil _ _
  split
  · exact List.cons_ne_nil _ _
  · exact hdecimal

end Text

/-- The shortest digits of a double are read as its magnitude. -/
theorem toFloat_shortest {x : Float} (hx : x.isFinite = true) (hsign : Binary64.isNegative x = false) :
    (Binary64.shortest (Binary64.ordinal x)).toFloat = x := by
  apply Binary64.ext_ordinal
  · rw [Decimal.isNegative_toFloat, hsign]
  · rw [Decimal.ordinal_toFloat, Binary64.ordinal_shortest (Binary64.isFinite_iff.1 hx)]

end Style

theorem plainText_ne_empty (x : Float) : plainText x ≠ "" := by
  rw [Ne, ← String.toList_eq_nil_iff, plainText, String.toList_ofList]
  exact Style.text_ne_nil Style.plain_writesExponents (List.cons_ne_nil _ _) Binary64.shortest x

end DeskCalc
