import DeskCalc.Expression.Evaluation
import DeskCalc.Proofs.Decimal.Reading
import DeskCalc.Proofs.Expression.Lexing
import DeskCalc.Proofs.Expression.PolishForm
import DeskCalc.Proofs.Stages
import DeskCalc.Settings

/-!
What becomes of a typed text. The length and the form of the text decide whether it is evaluated at all, and
in which of the ways it is refused; once it is an expression only arithmetic can fail. The form is that of the
lexical grammar and of the grammar of expressions, and no stage after the grammar can find a fault in it.
-/

namespace DeskCalc

/-- Whether a text with no blanks around it is an expression: it has a cut, whose tokens are a sentence at
which no more than 256 entries are ever pending. -/
def IsExpression (cs : List Char) : Prop :=
  cs ≠ [] ∧ ∃ tokens, Cut cs tokens ∧ (∃ d : Derivation .expr, d.tokens = tokens) ∧
    ∀ s ∈ Yard.states {} tokens, s.pending.length ≤ 256

/-- The errors that arise from numbers only. -/
def EvalError.IsArithmetic (e : EvalError) : Prop :=
  e = .divisionByZero ∨ (∃ fault, e = .domain fault) ∨ ∃ fault, e = .notFinite fault

/-! ### Values -/

theorem Elementary.isArithmetic_of_checked {f : Elementary} {x y : Float} {e : EvalError}
    (h : f.checked x y = .error e) : e.IsArithmetic := by
  unfold checked at h
  split at h
  · cases h
    exact .inr (.inl ⟨_, rfl⟩)
  split at h
  · cases h
    exact .inr (.inr ⟨_, rfl⟩)
  · cases h

theorem Elementary.isArithmetic_of_apply {f : Elementary} {x : Float} {e : EvalError}
    (h : f.apply x = .error e) : e.IsArithmetic := by
  cases f with
  | trig t => exact isArithmetic_of_checked h
  | exp => exact isArithmetic_of_checked h
  | sqrt | log =>
      unfold apply at h
      simp only at h
      split at h
      · cases h
        exact .inr (.inl ⟨_, rfl⟩)
      · exact isArithmetic_of_checked h

theorem isArithmetic_of_power {a b : Float} {e : EvalError} (h : power a b = .error e) : e.IsArithmetic := by
  unfold power at h
  split at h
  · cases h
    exact .inl rfl
  split at h
  · cases h
    exact .inr (.inl ⟨_, rfl⟩)
  · cases h

theorem BinaryOperator.isArithmetic_of_compute {op : BinaryOperator} {a b : Float} {e : EvalError}
    (h : op.compute a b = .error e) : e.IsArithmetic := by
  cases op with
  | add | sub | mul => cases h
  | div =>
      simp only [compute] at h
      split at h
      · cases h
        exact .inl rfl
      · cases h
  | pow => exact isArithmetic_of_power h

theorem BinaryOperator.isArithmetic_of_apply {op : BinaryOperator} {a b : Float} {e : EvalError}
    (h : op.apply a b = .error e) : e.IsArithmetic := by
  unfold apply at h
  split at h
  next hcompute =>
    cases h
    exact isArithmetic_of_compute hcompute
  split at h
  · cases h
  · cases h
    exact .inr (.inr ⟨_, rfl⟩)

theorem Expression.isArithmetic_of_value {tree : Expression} {e : EvalError} (h : tree.value = .error e) :
    e.IsArithmetic := by
  induction tree generalizing e with
  | number v =>
      unfold value at h
      split at h
      · cases h
      · cases h
        exact .inr (.inr ⟨_, rfl⟩)
  | constant c => cases h
  | negative a ih => exact ih (map_eq_error_iff.1 h)
  | binary op a b iha ihb =>
      rcases bind_eq_error_iff.1 h with ha | ⟨x, -, h⟩
      · exact iha ha
      rcases bind_eq_error_iff.1 h with hb | ⟨y, -, h⟩
      · exact ihb hb
      · exact BinaryOperator.isArithmetic_of_apply h
  | call f a ih =>
      rcases bind_eq_error_iff.1 h with ha | ⟨x, -, h⟩
      · exact ih ha
      · exact Elementary.isArithmetic_of_apply h

/-! ### Forms -/

theorem Expression.exists_ofPolish {tokens polish : List Token} (h : Token.toPolish tokens = .ok polish) :
    ∃ tree, ofPolish polish = .ok tree := by
  obtain ⟨d, -, rfl⟩ := Token.exists_derivation_of_toPolish h
  exact ⟨d.tree, d.ofPolish_postorder⟩

namespace Evaluation

theorem hasDoubleUnderscore_iff {cs : List Char} :
    hasDoubleUnderscore cs = true ↔ ['_', '_'] <:+: cs := by
  induction cs using hasDoubleUnderscore.induct with
  | case1 rest => exact iff_of_true rfl ⟨[], rest, rfl⟩
  | case2 c rest hc ih =>
      have hstart : ¬['_', '_'] <+: c :: rest := by
        rintro ⟨after, hafter⟩
        obtain ⟨rfl, rfl⟩ := List.cons.inj hafter
        exact hc after rfl rfl
      rw [hasDoubleUnderscore.eq_2 c rest hc, ih, List.infix_cons_iff, or_iff_right hstart]
  | case3 => exact iff_of_false Bool.false_ne_true (by simp)

/-- The three forms of a text follow from each other. -/
theorem parse_eq_ok_iff {cs : List Char} {tokens polish : List Token} {tree : Expression} :
    parse cs = .ok (tokens, polish, tree) ↔
      lex cs = .ok tokens ∧ Token.toPolish tokens = .ok polish ∧ Expression.ofPolish polish = .ok tree := by
  constructor
  · intro h
    obtain ⟨ts, hlex, h⟩ := bind_eq_ok_iff.1 h
    obtain ⟨ps, hpolish, h⟩ := bind_eq_ok_iff.1 h
    obtain ⟨e, htree, h⟩ := bind_eq_ok_iff.1 h
    cases h
    exact ⟨hlex, hpolish, htree⟩
  · rintro ⟨hlex, hpolish, htree⟩
    simp only [parse, bind, Except.bind, hlex, hpolish, htree]
    rfl

/-- What is evaluated has all its forms, and the value is that of the tree. -/
theorem parse_of_ofText {limit : Nat} {text : String} {r : Evaluation} (h : ofText limit text = .ok r) :
    parse text.toList = .ok (r.tokens, r.polish, r.tree) ∧ r.tree.value = .ok r.value := by
  unfold ofText at h
  simp only at h
  split at h
  · cases h
  split at h
  · cases h
  split at h
  next => cases h
  next tokens polish tree hparse =>
    obtain ⟨x, hvalue, rfl⟩ := map_eq_ok_iff.1 h
    exact ⟨hparse, hvalue⟩

theorem lex_eq_ok_iff {cs : List Char} {tokens : List Token} :
    lex cs = .ok tokens ↔ Text.trim cs ≠ [] ∧ Cut (Text.trim cs) tokens := by
  rw [lex]
  by_cases hempty : Text.trim cs = []
  · simp [hempty]
  · simp [hempty, Token.lex_eq_ok_iff]

/-- A text has all its forms exactly if it is an expression. -/
theorem exists_parse_iff {cs : List Char} : (∃ forms, parse cs = .ok forms) ↔ IsExpression (Text.trim cs) := by
  constructor
  · rintro ⟨⟨tokens, polish, tree⟩, h⟩
    obtain ⟨hlex, hpolish, -⟩ := parse_eq_ok_iff.1 h
    obtain ⟨hne, hcut⟩ := lex_eq_ok_iff.1 hlex
    obtain ⟨d, hd, -⟩ := Token.exists_derivation_of_toPolish hpolish
    exact ⟨hne, tokens, hcut, ⟨d, hd⟩, Yard.staysWithinLimit_of_run hpolish⟩
  · rintro ⟨hne, tokens, hcut, ⟨d, rfl⟩, hlimit⟩
    exact ⟨(d.tokens, d.postorder, d.tree), parse_eq_ok_iff.2
      ⟨lex_eq_ok_iff.2 ⟨hne, hcut⟩, Token.toPolish_tokens hlimit, d.ofPolish_postorder⟩⟩

/-- An expression of admissible length has a value, or arithmetic fails. -/
theorem ofText_of_isExpression {limit : Nat} {text : String} (hunderscore : ¬['_', '_'] <:+: text.toList)
    (hlength : text.toList.length ≤ limit) (h : IsExpression (Text.trim text.toList)) :
    (∃ result, ofText limit text = .ok result) ∨ ∃ e, ofText limit text = .error e ∧ e.IsArithmetic := by
  obtain ⟨⟨tokens, polish, tree⟩, hparse⟩ := exists_parse_iff.2 h
  rw [← hasDoubleUnderscore_iff] at hunderscore
  rw [ofText, if_neg hunderscore, if_neg (Nat.not_lt.2 hlength), hparse]
  simp only
  cases hvalue : tree.value with
  | ok x => exact .inl ⟨⟨tokens, polish, tree, x⟩, rfl⟩
  | error e => exact .inr ⟨e, rfl, Expression.isArithmetic_of_value hvalue⟩

theorem ofText_of_not_isExpression {limit : Nat} {text : String}
    (hunderscore : ¬['_', '_'] <:+: text.toList) (hlength : text.toList.length ≤ limit)
    (h : ¬IsExpression (Text.trim text.toList)) : ∃ fault, ofText limit text = .error (.malformed fault) := by
  rw [← hasDoubleUnderscore_iff] at hunderscore
  rw [ofText, if_neg hunderscore, if_neg (Nat.not_lt.2 hlength)]
  cases hparse : parse text.toList with
  | ok forms => exact absurd (exists_parse_iff.1 ⟨forms, hparse⟩) h
  | error fault => exact ⟨fault, rfl⟩

/-- The four ways in which evaluation can end. -/
theorem ofText_cases (limit : Nat) (text : String) :
    (['_', '_'] <:+: text.toList ∧ ofText limit text = .error .doubleUnderscore) ∨
    (¬['_', '_'] <:+: text.toList ∧ limit < text.toList.length ∧
      ofText limit text = .error (.tooLong text.toList.length limit)) ∨
    (¬['_', '_'] <:+: text.toList ∧ text.toList.length ≤ limit ∧ ¬IsExpression (Text.trim text.toList) ∧
      ∃ fault, ofText limit text = .error (.malformed fault)) ∨
    (¬['_', '_'] <:+: text.toList ∧ text.toList.length ≤ limit ∧ IsExpression (Text.trim text.toList) ∧
      ((∃ result, ofText limit text = .ok result) ∨
        ∃ e, ofText limit text = .error e ∧ e.IsArithmetic)) := by
  by_cases hunderscore : ['_', '_'] <:+: text.toList
  · exact .inl ⟨hunderscore, by rw [ofText, if_pos (hasDoubleUnderscore_iff.2 hunderscore)]⟩
  by_cases hlength : limit < text.toList.length
  · refine .inr (.inl ⟨hunderscore, hlength, ?_⟩)
    rw [ofText, if_neg (mt hasDoubleUnderscore_iff.1 hunderscore), if_pos hlength]
  have hle := Nat.not_lt.1 hlength
  by_cases hform : IsExpression (Text.trim text.toList)
  · exact .inr (.inr (.inr ⟨hunderscore, hle, hform, ofText_of_isExpression hunderscore hle hform⟩))
  · exact .inr (.inr (.inl ⟨hunderscore, hle, hform, ofText_of_not_isExpression hunderscore hle hform⟩))

/-- How evaluation ends depends on the text and the limit alone: two underscores in a row, then the length,
then the form decide, and only arithmetic is left to fail. No text is refused for a numeral in it, and a
reverse Polish form always has a tree. -/
theorem ofText_outcome (settings : Settings) (text : String) :
    (ofText settings.expressionLimit text = .error .doubleUnderscore ↔ ['_', '_'] <:+: text.toList) ∧
    (∀ length limit, ofText settings.expressionLimit text = .error (.tooLong length limit) ↔
      ¬['_', '_'] <:+: text.toList ∧ settings.expressionLimit < text.toList.length ∧
        length = text.toList.length ∧ limit = settings.expressionLimit) ∧
    ((∃ fault, ofText settings.expressionLimit text = .error (.malformed fault)) ↔
      ¬['_', '_'] <:+: text.toList ∧ text.toList.length ≤ settings.expressionLimit ∧
        ¬IsExpression (Text.trim text.toList)) ∧
    (((∃ result, ofText settings.expressionLimit text = .ok result) ∨
        ∃ e, ofText settings.expressionLimit text = .error e ∧ e.IsArithmetic) ↔
      ¬['_', '_'] <:+: text.toList ∧ text.toList.length ≤ settings.expressionLimit ∧
        IsExpression (Text.trim text.toList)) ∧
    (∀ piece, ofText settings.expressionLimit text ≠ .error (.invalidNumber piece)) ∧
    (∀ cs rest d, Numeral.scan? cs = some (d, rest) →
      ∃ numeral, cs = numeral ++ rest ∧ signedDouble? numeral = some d.toFloat) ∧
    ∀ tokens polish, Token.toPolish tokens = .ok polish → ∃ tree, Expression.ofPolish polish = .ok tree := by
  have hscan : ∀ cs rest d, Numeral.scan? cs = some (d, rest) →
      ∃ numeral, cs = numeral ++ rest ∧ signedDouble? numeral = some d.toFloat := by
    intro cs rest d h
    obtain ⟨n, hn, rfl⟩ := Numeral.exists_of_scan? h
    exact ⟨n.text, hn, n.signedDouble?_text⟩
  have hcases := ofText_cases settings.expressionLimit text
  rw [← and_assoc, ← and_assoc, ← and_assoc, ← and_assoc]
  refine ⟨?_, hscan, fun tokens polish h => Expression.exists_ofPolish h⟩
  generalize ofText settings.expressionLimit text = outcome at hcases ⊢
  obtain ⟨hunderscore, rfl⟩ | ⟨hunderscore, hlength, rfl⟩ | ⟨hunderscore, hlength, hform, fault, rfl⟩ |
    ⟨hunderscore, hlength, hform, ⟨result, rfl⟩ | ⟨e, rfl, he⟩⟩ := hcases
  · simp [hunderscore, EvalError.IsArithmetic]
  · simp [hunderscore, hlength, Nat.not_le.2 hlength, EvalError.IsArithmetic, eq_comm]
  · simp [hunderscore, hlength, Nat.not_lt.2 hlength, hform, EvalError.IsArithmetic]
  · simp [hunderscore, hlength, Nat.not_lt.2 hlength, hform]
  · obtain rfl | ⟨fault, rfl⟩ | ⟨fault, rfl⟩ := he
    all_goals simp [hunderscore, hlength, Nat.not_lt.2 hlength, hform, EvalError.IsArithmetic]

/-- The text is refused for its two underscores, although it is too long and no expression. -/
example : ofText 2 "a__" = .error .doubleUnderscore := rfl

end Evaluation

end DeskCalc
