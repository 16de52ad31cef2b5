import DeskCalc.Decimal.Reading
import DeskCalc.Proofs.Binary64.Word
import DeskCalc.Proofs.Decimal.Numeral

/-!
What is read as a number: a numeral with a sign before it or none, and only that. A minus changes the sign of
the double that the numeral denotes, and the double is finite if it is without the minus.
-/

namespace DeskCalc

namespace Decimal

theorem ordinal_le_infinite (d : Decimal) : d.ordinal ≤ Binary64.infinite := by
  unfold ordinal
  split
  · exact Nat.zero_le _
  split
  · exact Nat.le_refl _
  split
  · exact Nat.zero_le _
  · exact Nat.min_le_right _ _

@[simp] theorem ordinal_toFloat (d : Decimal) : Binary64.ordinal d.toFloat = d.ordinal :=
  Binary64.ordinal_ofOrdinal d.ordinal_le_infinite

@[simp] theorem isNegative_toFloat (d : Decimal) : Binary64.isNegative d.toFloat = false :=
  Binary64.isNegative_ofOrdinal d.ordinal_le_infinite

theorem isFinite_neg_toFloat (d : Decimal) : (-d.toFloat).isFinite = d.toFloat.isFinite := by
  apply Binary64.isFinite_neg
  rw [ordinal_toFloat]
  exact d.ordinal_le_infinite

end Decimal

theorem signedDouble?_append {sign : List Char} (hsign : sign = [] ∨ sign = ['+'] ∨ sign = ['-'])
    (n : Numeral) :
    signedDouble? (sign ++ n.text) =
      some (if sign = ['-'] then -n.decimal.toFloat else n.decimal.toFloat) := by
  have hhead : ∀ c ∈ n.text.head?, (c.isDigit || c == '.') = true := by
    obtain ⟨c, cs, hcs, hc⟩ := n.exists_text_eq_cons
    rw [hcs]
    rintro d ⟨⟩
    exact hc
  have hchars := Numeral.ofChars?_eq_some_iff.2 ⟨n, rfl, rfl⟩
  rw [signedDouble?, Numeral.scanSign_append hsign hhead]
  simp only [hchars, Option.map_some, decide_eq_true_eq]

/-- The text of a numeral is read as its number. -/
theorem Numeral.signedDouble?_text (n : Numeral) : signedDouble? n.text = some n.decimal.toFloat :=
  signedDouble?_append (.inl rfl) n

theorem exists_of_signedDouble? {cs : List Char} {x : Float} (h : signedDouble? cs = some x) :
    ∃ (sign : List Char) (n : Numeral), (sign = [] ∨ sign = ['+'] ∨ sign = ['-']) ∧ cs = sign ++ n.text ∧
      x = if sign = ['-'] then -n.decimal.toFloat else n.decimal.toFloat := by
  obtain ⟨sign, hsign, hcs, hminus⟩ := Numeral.exists_of_scanSign cs
  obtain ⟨d, hd, rfl⟩ := Option.map_eq_some_iff.1 h
  obtain ⟨n, hn, rfl⟩ := Numeral.ofChars?_eq_some_iff.1 hd
  refine ⟨sign, n, hsign, by rw [hn, ← hcs], ?_⟩
  simp only [hminus, decide_eq_true_eq]

end DeskCalc
