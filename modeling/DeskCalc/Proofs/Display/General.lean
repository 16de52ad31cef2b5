import DeskCalc.Proofs.Display.TwiceRounded

/-!
Numbers with a given number of significant digits. The text denotes the double rounded to so many digits and nothing
else. Whether it has an exponent is decided by the first digit of the rounded number, and so is the exponent; no zero
is left at the end of a fraction.
-/

namespace DeskCalc

/-! ### The numeral that is written -/

namespace Numeral

/-- The parts of a padded exponent, its sign among them. -/
theorem Exponent.of_text_eq {x : Exponent} {e : Int} (h : x.text = Style.paddedExponent e) :
    x.mark = 'e' ∧ x.sign ≠ [] ∧ 2 ≤ x.digits.length := by
  have hsign : (if e < 0 then '-' else '+').isDigit = false := by
    split
    · rfl
    · rfl
  unfold Style.paddedExponent at h
  simp only [text] at h
  generalize (if e < 0 then '-' else '+') = sign at h hsign
  obtain ⟨hmark, hrest⟩ := List.cons.inj h
  have hne : x.sign ≠ [] := by
    intro hnil
    rw [hnil, List.nil_append] at hrest
    rw [x.isDigit_of_mem sign (by rw [hrest]; exact List.mem_cons_self)] at hsign
    cases hsign
  refine ⟨hmark, hne, ?_⟩
  have hlength := congrArg List.length hrest
  have hone : x.sign.length = 1 := by
    rcases x.sign_mem with hs | hs | hs
    · exact absurd hs hne
    · rw [hs]
      rfl
    · rw [hs]
      rfl
  have hdigits : 0 < (Nat.toDigits 10 e.natAbs).length := Nat.length_toDigits_pos
  rw [List.length_append, hone, List.length_cons] at hlength
  split at hlength
  · rw [List.length_cons] at hlength
    omega
  · omega

/-- A numeral shows the number `r`, whose first digit stands at `Int.log 10 r`, with at most `count` significant
digits. -/
structure IsGeneral (n : Numeral) (count : Nat) (r : ℚ) : Prop where
  value_eq : n.value = r
  /-- There is no exponent from `10 ^ (-4)` on up to the last digit. -/
  exponent?_eq_none_iff : n.exponent? = none ↔ -4 ≤ Int.log 10 r ∧ Int.log 10 r < count
  /-- An exponent follows one digit and a fraction, if there is one. -/
  length_whole : ∀ e ∈ n.exponent?, n.whole.length = 1
  mark_eq : ∀ e ∈ n.exponent?, e.mark = 'e'
  sign_ne_nil : ∀ e ∈ n.exponent?, e.sign ≠ []
  two_le_length_digits : ∀ e ∈ n.exponent?, 2 ≤ e.digits.length
  value_exponent : ∀ e ∈ n.exponent?, e.value = Int.log 10 r
  /-- There is a digit after a point, and the last one is no zero. -/
  fraction_end : ∀ ds ∈ n.fraction?, ∃ c ∈ ds.getLast?, c ≠ '0'

end Numeral

/-- A decimal that does not end in a zero is written as a numeral of its value. -/
theorem Style.exists_isGeneral {d : Decimal} (hend : d.coefficient % 10 ≠ 0) (count : Nat) :
    ∃ n : Numeral, n.text = (general count).decimalText d ∧ n.IsGeneral count d.value := by
  have hne : d.coefficient ≠ 0 := by
    intro hzero
    rw [hzero] at hend
    exact hend rfl
  have hlog := Decimal.leading_eq_log hne
  obtain ⟨c, hc, hzero⟩ := Decimal.getLast?_digits hend
  have hfraction : ∀ n : Numeral, n.EndsAs d.digits → ∀ ds ∈ n.fraction?, ∃ c ∈ ds.getLast?, c ≠ '0' := by
    intro n hends ds hds
    exact ⟨c, hends ds hds ▸ hc, hzero⟩
  by_cases hpositional : -4 ≤ d.leading ∧ d.leading < count
  · obtain ⟨n, htext, hvalue, hnone, hends⟩ := d.exists_numeral_positional false
    have hexponent : ∀ e, e ∉ n.exponent? := by simp [hnone]
    refine ⟨n, ?_, ?_⟩
    · rw [htext]
      simp [decimalText, general, hpositional]
    · refine ⟨by rw [← n.value_decimal, hvalue], iff_of_true hnone (hlog ▸ hpositional), ?_, ?_, ?_, ?_, ?_,
        hfraction n (hends rfl)⟩
      all_goals exact fun e he => absurd he (hexponent e)
  · obtain ⟨x, hx, hvalue⟩ := exists_paddedExponent d.leading
    obtain ⟨hmark, hsign, hlength⟩ := Numeral.Exponent.of_text_eq hx
    obtain ⟨n, htext, hdecimal, hexponent, hwhole, hends⟩ := d.exists_numeral_scientific x hvalue
    have hunique : ∀ e ∈ n.exponent?, e = x := by
      intro e he
      rw [hexponent] at he
      exact (Option.some.inj he).symm
    refine ⟨n, ?_, ?_⟩
    · rw [htext, hx]
      simp [decimalText, general, hne, hpositional]
    · refine ⟨by rw [← n.value_decimal, hdecimal], ?_, fun e _ => hwhole, ?_, ?_, ?_, ?_, hfraction n hends⟩
      · rw [hexponent, ← hlog]
        exact iff_of_false (Option.some_ne_none x) hpositional
      · exact fun e he => hunique e he ▸ hmark
      · exact fun e he => hunique e he ▸ hsign
      · exact fun e he => hunique e he ▸ hlength
      · exact fun e he => hunique e he ▸ hvalue.trans hlog

/-! ### The text of a double -/

section Double

variable {digits : Nat} {x : Float}

/-- The sign before the text of a double. -/
def signText (x : Float) : List Char := if Binary64.isNegative x then ['-'] else []

theorem signText_cases (x : Float) : signText x = [] ∨ signText x = ['+'] ∨ signText x = ['-'] := by
  unfold signText
  split
  · exact .inr (.inr rfl)
  · exact .inl rfl

theorem Style.text_of_isFinite (s : Style) (digitsOf : Nat → Decimal) (hx : x.isFinite = true) :
    s.text digitsOf x = signText x ++ s.decimalText (digitsOf (Binary64.ordinal x)) := by
  have hfinite := Binary64.isFinite_iff.1 hx
  rw [text, signText]
  simp only [if_neg (Nat.not_lt.2 hfinite.le), if_neg hfinite.ne]
  split
  · rfl
  · rfl

theorem toList_generalText (hdigits : 0 < digits) (x : Float) :
    (generalText x digits).toList =
      (Style.general digits).text (fun k => Binary64.significant k digits) x := by
  rw [generalText, String.toList_ofList, Nat.max_eq_left hdigits]

theorem exists_numeral_generalText (hdigits : 0 < digits) (hx : x.isFinite = true) :
    ∃ n : Numeral, (generalText x digits).toList = signText x ++ n.text ∧
      n.decimal.toFloat = (Binary64.significant (Binary64.ordinal x) digits).toFloat := by
  rw [toList_generalText hdigits]
  exact Style.exists_numeral_text (Style.general_writesExponents digits) _ hx

theorem toList_generalText_of_isFinite (hdigits : 0 < digits) (hx : x.isFinite = true) :
    (generalText x digits).toList =
      signText x ++ (Style.general digits).decimalText (Binary64.significant (Binary64.ordinal x) digits) := by
  rw [toList_generalText hdigits, Style.text_of_isFinite _ _ hx]

/-- The text of a double with at most `count` significant digits is that of two roundings, and denotes the double
rounded to `count` digits. -/
theorem generalText_isGeneral (x : Float) (count : Nat) (hx : x.isFinite = true) (hzero : Binary64.ordinal x ≠ 0)
    (hpos : 1 ≤ count) (hcount : count ≤ 17) :
    (generalText x count).toList = signText x ++ Binary64.twiceRounded (Binary64.ordinal x) count ∧
      ∃ r : ℚ, (∀ q, IsSignificant count (Binary64.value (Binary64.ordinal x)) q ↔ q = r) ∧
        ∃ n : Numeral, n.text = Binary64.twiceRounded (Binary64.ordinal x) count ∧ n.IsGeneral count r := by
  have hsignificant := Binary64.isSignificant_significant (Binary64.ordinal x) hcount
  have htext := Binary64.decimalText_significant hzero hpos hcount
  have hend : (Binary64.significant (Binary64.ordinal x) count).coefficient % 10 ≠ 0 := by
    rw [← Binary64.trimmed_eq_significant hzero hpos hcount hsignificant]
    exact Decimal.trimmed_coefficient_mod_ten
      (Binary64.coefficient_ne_zero_of_isSignificant hzero hpos hsignificant)
  obtain ⟨n, hn, hgeneral⟩ := Style.exists_isGeneral hend count
  refine ⟨?_, _, ?_, n, hn.trans htext, hgeneral⟩
  · rw [toList_generalText_of_isFinite hpos hx, htext]
  · intro q
    constructor
    · intro hq
      exact hq.unique hsignificant
    · rintro rfl
      exact hsignificant

/-- Rounding `9.9996` to four digits leads to the next power of ten, where fewer places are left. -/
theorem generalText_isGeneral_of_carry :
    Float.isFinite 9.9996 = true ∧ generalText 9.9996 4 = "10" ∧
      ∃ r : ℚ, IsSignificant 4 (Binary64.value (Binary64.ordinal 9.9996)) r ∧
        ∃ n : Numeral, n.text = ['1', '0'] ∧ n.IsGeneral 4 r := by
  have hfinite : Float.isFinite 9.9996 = true := by decide +kernel
  have hzero : Binary64.ordinal 9.9996 ≠ 0 := by decide +kernel
  have htext : Binary64.twiceRounded (Binary64.ordinal 9.9996) 4 = ['1', '0'] := by decide +kernel
  have hsign : signText 9.9996 = [] := by decide +kernel
  obtain ⟨hlist, r, hr, n, hn, hgeneral⟩ := generalText_isGeneral 9.9996 4 hfinite hzero (by decide) (by decide)
  refine ⟨hfinite, ?_, r, (hr r).2 rfl, n, hn.trans htext, hgeneral⟩
  rw [← String.toList_inj, hlist, hsign, htext]
  rfl

end Double

end DeskCalc
