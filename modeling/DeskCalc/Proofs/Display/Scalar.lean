import DeskCalc.Proofs.Angle
import DeskCalc.Proofs.Binary64.Shortest
import DeskCalc.Proofs.Display.Number

/-!
A result that is typed again. Its text is a numeral with a minus before it or none; one reader takes the two as
one number, the other one as two tokens, and both find the double that was written. The text is short enough to
be an expression, for it never has more than twenty-four characters.
-/

namespace DeskCalc

/-! ### Lengths -/

namespace Decimal

variable {d : Decimal}

theorem length_pointed_le (digits : List Char) (places : Nat) :
    (pointed digits places).length ≤ max (digits.length + 1) (places + 2) := by
  unfold pointed
  split
  next h =>
    rw [List.length_append, List.length_take, List.length_cons, List.length_drop]
    omega
  next h =>
    rw [List.length_cons, List.length_cons, List.length_append, List.length_replicate]
    omega

/-- Between `10 ^ (-4)` and `10 ^ 16` few zeros are added to the digits. -/
theorem length_positional_le (hcount : digitCount d.coefficient ≤ 17) (hlow : -4 ≤ d.leading)
    (hhigh : d.leading < 16) : d.positional.length + 2 ≤ if 0 ≤ d.exponent then 18 else 24 := by
  have hlength : d.digits.length = digitCount d.coefficient := rfl
  unfold leading at hlow hhigh
  unfold positional
  split
  next h =>
    rw [List.length_append, List.length_replicate]
    omega
  next h =>
    have hpointed := length_pointed_le d.digits (-d.exponent).toNat
    omega

theorem length_mantissa_le (d : Decimal) : d.mantissa.length ≤ digitCount d.coefficient + 1 := by
  have hlength : d.digits.length = digitCount d.coefficient := rfl
  unfold mantissa
  split
  next first second rest heq =>
    rw [heq] at hlength
    rw [← hlength]
    exact Nat.le_refl _
  next => omega

/-- The first digit of what is read as a number, and not as zero or as infinity, stands within the range of
doubles. -/
theorem leading_bounds (hzero : d.ordinal ≠ 0) (hfinite : d.ordinal < Binary64.infinite) :
    -331 ≤ d.leading ∧ d.leading < 310 := by
  unfold ordinal at hzero hfinite
  split at hzero
  · exact absurd rfl hzero
  split at hzero
  next hcoefficient hlarge =>
    rw [if_neg hcoefficient, if_pos hlarge] at hfinite
    exact absurd hfinite (Nat.lt_irrefl _)
  split at hzero
  · exact absurd rfl hzero
  · omega

end Decimal

theorem Style.length_paddedExponent_le {e : Int} (he : e.natAbs < 1000) : (paddedExponent e).length ≤ 5 := by
  have hdigits : (Nat.toDigits 10 e.natAbs).length ≤ 3 := (Decimal.digitCount_le_iff (by decide)).2 he
  unfold paddedExponent
  simp only
  rw [List.length_cons, List.length_cons]
  split
  · rw [List.length_cons]
    omega
  · omega

theorem length_decimalText_shortest_le {k : Nat} (hk : k < Binary64.infinite) :
    (Style.scalar.decimalText (Binary64.shortest k)).length ≤ 23 := by
  have hcount := Binary64.digitCount_shortest_le hk
  have hordinal := Binary64.ordinal_shortest hk
  have hzero : k = 0 → Binary64.shortest k = ⟨0, 0⟩ := by
    rintro rfl
    rfl
  generalize Binary64.shortest k = d at *
  unfold Style.decimalText
  split
  next hpositional =>
    have hbounds : -4 ≤ d.leading ∧ d.leading < 16 := by
      by_cases hcoefficient : d.coefficient = 0
      · have hd : d.ordinal = 0 := if_pos hcoefficient
        rw [hzero (hordinal.symm.trans hd)]
        decide
      · simpa [hcoefficient, Style.scalar] using hpositional
    have hlength := Decimal.length_positional_le hcount hbounds.1 hbounds.2
    split
    next hwhole =>
      simp only [Style.scalar, Bool.true_and, decide_eq_true_eq] at hwhole
      rw [if_pos hwhole] at hlength
      rw [List.length_append]
      change _ + 2 ≤ 23
      omega
    next => split at hlength <;> omega
  next hscientific =>
    have hcoefficient : d.coefficient ≠ 0 := by
      intro h
      simp [h] at hscientific
    have hne : d.ordinal ≠ 0 := by
      intro h
      rw [hzero (hordinal.symm.trans h)] at hcoefficient
      exact hcoefficient rfl
    have hbounds := Decimal.leading_bounds hne (hordinal ▸ hk)
    have hmantissa := d.length_mantissa_le
    have hexponent := Style.length_paddedExponent_le (e := d.leading) (by omega)
    rw [List.length_append]
    change _ + (Style.paddedExponent d.leading).length ≤ 23
    omega

theorem length_scalarText_le {x : Float} (hx : x.isFinite = true) : (scalarText x).toList.length ≤ 24 := by
  have hfinite := Binary64.isFinite_iff.1 hx
  have hlength := length_decimalText_shortest_le hfinite
  rw [scalarText, String.toList_ofList, Style.text]
  simp only [if_neg (Nat.not_lt.2 hfinite.le), if_neg hfinite.ne]
  split
  · rw [List.length_cons]
    omega
  · omega

/-! ### Typed numbers as expressions -/

namespace TypedNumber

theorem isTrimmed_sign_append (t : TypedNumber) : Text.IsTrimmed (t.sign ++ t.numeral.text) := by
  rcases t.sign_mem with hsign | hsign | hsign
  · rw [hsign]
    exact t.numeral.isTrimmed_text
  · rw [hsign]
    exact (Text.isTrimmed_singleton rfl).append t.numeral.isTrimmed_text []
  · rw [hsign]
    exact (Text.isTrimmed_singleton rfl).append t.numeral.isTrimmed_text []

theorem trim_text (t : TypedNumber) : Text.trim t.text = t.sign ++ t.numeral.text := by
  have htext : t.text = t.before ++ ((t.sign ++ t.numeral.text) ++ t.after) := by
    rw [text, List.append_assoc]
  rw [htext]
  exact t.isTrimmed_sign_append.trim_append t.isBlank_before t.isBlank_after

/-- A typed number is an expression by itself. -/
theorem exists_parse_text (t : TypedNumber) :
    ∃ tokens polish, Evaluation.parse t.text = .ok (tokens, polish, t.tree) := by
  have hend : ∀ c ∈ ([] : List Char).head?, isBreak c = true := nofun
  have hnumber : Token.lex t.numeral.text = .ok [.number t.magnitude] := by
    have hlex := Token.lex_append_of_head? (.numeral t.numeral) hend
    rw [List.append_nil, Token.lex_nil] at hlex
    exact hlex
  have hlex : Evaluation.lex t.text = .ok t.tokens := by
    rw [Evaluation.lex_eq_ok_iff, ← Token.lex_eq_ok_iff, t.trim_text, t.lex_sign_append hnumber, List.append_nil]
    exact ⟨t.isTrimmed_sign_append.ne_nil, rfl⟩
  unfold tokens at hlex
  unfold tree
  rcases t.sign_mem with hsign | hsign | hsign
  · rw [hsign] at hlex ⊢
    exact ⟨_, [.number t.magnitude], Evaluation.parse_eq_ok_iff.2 ⟨hlex, rfl, rfl⟩⟩
  · rw [hsign] at hlex ⊢
    exact ⟨_, [.number t.magnitude, .sign .plus], Evaluation.parse_eq_ok_iff.2 ⟨hlex, rfl, rfl⟩⟩
  · rw [hsign] at hlex ⊢
    exact ⟨_, [.number t.magnitude, .sign .minus], Evaluation.parse_eq_ok_iff.2 ⟨hlex, rfl, rfl⟩⟩

theorem underscore_not_mem_text (t : TypedNumber) : '_' ∉ t.text := by
  intro h
  exact t.underscore_not_mem_callText .sin (by simp [callText, h])

/-- The value of a typed number, read as an expression. -/
theorem ofText_text (t : TypedNumber) (hfinite : t.magnitude.isFinite = true) {limit : Nat} {text : String}
    (htext : text.toList = t.text) (hlength : text.toList.length ≤ limit) :
    (Evaluation.ofText limit text).map (·.value) = .ok t.value := by
  obtain ⟨tokens, polish, hparse⟩ := t.exists_parse_text
  have hunderscore : ¬Evaluation.hasDoubleUnderscore t.text = true := by
    rw [Evaluation.hasDoubleUnderscore_iff]
    intro h
    exact t.underscore_not_mem_text (h.subset List.mem_cons_self)
  rw [htext] at hlength
  rw [Evaluation.ofText, htext, if_neg hunderscore, if_neg (Nat.not_lt.2 hlength), hparse]
  simp only [t.value_tree hfinite]
  rfl

/-- The value of a typed number, read as a number. -/
theorem readNumber?_sign_append (t : TypedNumber) (hfinite : t.magnitude.isFinite = true) :
    readNumber? (t.sign ++ t.numeral.text) = some t.value := by
  rw [readNumber?, signedDouble?_append t.sign_mem]
  apply Option.filter_eq_some_iff.2
  refine ⟨rfl, ?_⟩
  unfold value
  split
  · exact (Decimal.isFinite_neg_toFloat _).trans hfinite
  · exact hfinite

/-- A numeral with nothing around it but a minus or nothing. -/
def ofNumeral (negative : Bool) (n : Numeral) : TypedNumber where
  before := []
  sign := if negative then ['-'] else []
  numeral := n
  after := []
  isBlank_before := nofun
  sign_mem := by cases negative <;> simp
  isBlank_after := nofun

theorem text_ofNumeral (negative : Bool) (n : Numeral) :
    (ofNumeral negative n).text = (if negative then ['-'] else []) ++ n.text := by
  simp [text, ofNumeral]

theorem isNegative_value_ofNumeral (negative : Bool) (n : Numeral) :
    Binary64.isNegative (ofNumeral negative n).value = negative := by
  have hle : Binary64.ordinal n.decimal.toFloat ≤ Binary64.infinite := by
    rw [Decimal.ordinal_toFloat]
    exact n.decimal.ordinal_le_infinite
  cases negative with
  | true => exact (Binary64.isNegative_neg hle).trans (by rw [Decimal.isNegative_toFloat]; rfl)
  | false => exact n.decimal.isNegative_toFloat

theorem ordinal_value_ofNumeral (negative : Bool) (n : Numeral) :
    Binary64.ordinal (ofNumeral negative n).value = n.decimal.ordinal := by
  have hle : Binary64.ordinal n.decimal.toFloat ≤ Binary64.infinite := by
    rw [Decimal.ordinal_toFloat]
    exact n.decimal.ordinal_le_infinite
  cases negative with
  | true => exact (Binary64.ordinal_neg hle).trans n.decimal.ordinal_toFloat
  | false => exact n.decimal.ordinal_toFloat

end TypedNumber

/-- The text of a finite double, with the shortest digits, is a typed number of this value. -/
theorem Style.exists_typedNumber {s : Style} (hs : s.WritesExponents) {x : Float} (hx : x.isFinite = true) :
    ∃ t : TypedNumber, s.text Binary64.shortest x = t.text ∧ t.text = t.sign ++ t.numeral.text ∧
      t.magnitude.isFinite = true ∧ t.value = x := by
  obtain ⟨n, htext, hvalue⟩ := exists_numeral_text hs Binary64.shortest hx
  have hordinal : n.decimal.ordinal = Binary64.ordinal x := by
    rw [← Decimal.ordinal_toFloat, hvalue, Decimal.ordinal_toFloat,
      Binary64.ordinal_shortest (Binary64.isFinite_iff.1 hx)]
  refine ⟨.ofNumeral (Binary64.isNegative x) n, ?_, ?_, ?_, ?_⟩
  · rw [htext, TypedNumber.text_ofNumeral]
  · exact TypedNumber.text_ofNumeral _ _
  · rw [Binary64.isFinite_iff]
    change Binary64.ordinal n.decimal.toFloat < Binary64.infinite
    rw [Decimal.ordinal_toFloat, hordinal]
    exact Binary64.isFinite_iff.1 hx
  · apply Binary64.ext_ordinal
    · exact TypedNumber.isNegative_value_ofNumeral _ _
    · rw [TypedNumber.ordinal_value_ofNumeral, hordinal]

/-- A finite result that is typed again is the same double, with the same sign if it is zero, as a number and as an
expression. -/
theorem readNumber?_scalarText (x : Float) (hx : x.isFinite = true) :
    readNumber? (scalarText x).toList = some x ∧
    (Evaluation.ofText ({} : Settings).expressionLimit (scalarText x)).map (·.value) = .ok x := by
  obtain ⟨t, htext, hsigned, hfinite, rfl⟩ := Style.exists_typedNumber Style.scalar_writesExponents hx
  have hlist : (scalarText t.value).toList = t.text := by
    rw [scalarText, String.toList_ofList, htext]
  constructor
  · rw [hlist, hsigned]
    exact t.readNumber?_sign_append hfinite
  · apply t.ofText_text hfinite hlist
    calc (scalarText t.value).toList.length ≤ 24 := length_scalarText_le hx
      _ ≤ ({} : Settings).expressionLimit := by decide

/-- The smallest negative double is typed with an exponent, and its sign is an operator of the expression. -/
theorem readNumber?_scalarText_of_smallest : (-5e-324 : Float).isFinite = true ∧
    readNumber? "-5e-324".toList = some (-5e-324) ∧
    (Evaluation.ofText ({} : Settings).expressionLimit "-5e-324").map (·.value) = .ok (-5e-324) := by
  have hfinite : (-5e-324 : Float).isFinite = true := by decide +kernel
  have htext : scalarText (-5e-324) = "-5e-324" := by decide +kernel
  refine ⟨hfinite, ?_⟩
  rw [← htext]
  exact readNumber?_scalarText (-5e-324) hfinite

end DeskCalc
