import DeskCalc.Angle
import DeskCalc.Proofs.Decimal.Reading
import DeskCalc.Proofs.Expression.Outcome
import DeskCalc.Settings

/-!
Two ways to a trigonometric value. An angle is read as one number with blanks around it, and an expression
that applies the function to the same text is cut into tokens, of which a sign is one, and evaluated. Both end
in the function at the same double, or in the same error.
-/

namespace DeskCalc

/-- A number as it is typed, with a sign or without, and the blanks around it. -/
structure TypedNumber where
  before : List Char
  sign : List Char
  numeral : Numeral
  after : List Char
  isBlank_before : ∀ c ∈ before, Text.isBlank c = true
  sign_mem : sign = [] ∨ sign = ['+'] ∨ sign = ['-']
  isBlank_after : ∀ c ∈ after, Text.isBlank c = true

namespace TypedNumber

def text (t : TypedNumber) : List Char := t.before ++ (t.sign ++ (t.numeral.text ++ t.after))

def magnitude (t : TypedNumber) : Float := t.numeral.decimal.toFloat

def value (t : TypedNumber) : Float := if t.sign = ['-'] then -t.magnitude else t.magnitude

/-- As an expression a number and its sign are two tokens. -/
def tokens (t : TypedNumber) : List Token :=
  (if t.sign = ['-'] then [.operator .sub] else if t.sign = ['+'] then [.operator .add] else []) ++
    [.number t.magnitude]

def tree (t : TypedNumber) : Expression :=
  if t.sign = ['-'] then .negative (.number t.magnitude) else .number t.magnitude

/-- The text of a function applied to the number. -/
def callText (f : TrigFunction) (t : TypedNumber) : List Char :=
  f.name.toList ++ '(' :: (t.text ++ [')'])

theorem value_tree {t : TypedNumber} (h : t.magnitude.isFinite = true) : t.tree.value = .ok t.value := by
  unfold tree value
  split
  · rw [Expression.value, Expression.value, if_pos h]
    rfl
  · rw [Expression.value, if_pos h]

theorem lex_sign_append (t : TypedNumber) {cs : List Char} {ts : List Token}
    (h : Token.lex cs = .ok (.number t.magnitude :: ts)) :
    Token.lex (t.sign ++ cs) = .ok (t.tokens ++ ts) := by
  rcases t.sign_mem with hsign | hsign | hsign
  · simpa [tokens, hsign] using h
  · rw [hsign, tokens, hsign, List.singleton_append, Token.lex_cons_of_lexeme rfl rfl, h]
    rfl
  · rw [hsign, tokens, hsign, List.singleton_append, Token.lex_cons_of_lexeme rfl rfl, h]
    rfl

/-- The tokens of a function applied to the number. -/
theorem lex_callText (f : TrigFunction) (t : TypedNumber) :
    Token.lex (callText f t) = .ok (.call (.trig f) :: .opening :: (t.tokens ++ [.closing])) := by
  have hname : Lexeme f.name.toList (some (.call (.trig f))) := Lexeme.name (.function (.trig f))
  have hopening : ∀ c ∈ ('(' :: (t.text ++ [')'])).head?, isBreak c = true := by
    rintro c ⟨⟩
    rfl
  have hend : ∀ c ∈ (t.after ++ [')']).head?, isBreak c = true := by
    rw [List.head?_append]
    cases hafter : t.after with
    | nil =>
        rintro c ⟨⟩
        rfl
    | cons a after =>
        rintro c ⟨⟩
        simp [isBreak, t.isBlank_after a (by simp [hafter])]
  have hnumber : Token.lex (t.numeral.text ++ (t.after ++ [')'])) = .ok [.number t.magnitude, .closing] := by
    rw [Token.lex_append_of_head? (.numeral t.numeral) hend, Token.lex_append_of_isBlank t.isBlank_after,
      Token.lex_cons_of_lexeme rfl rfl, Token.lex_nil]
    rfl
  have hargument : Token.lex (t.text ++ [')']) = .ok (t.tokens ++ [.closing]) := by
    rw [text, List.append_assoc, List.append_assoc, List.append_assoc,
      Token.lex_append_of_isBlank t.isBlank_before, t.lex_sign_append hnumber]
  rw [callText, Token.lex_append_of_head? hname hopening, Token.lex_cons_of_lexeme rfl rfl, hargument]
  rfl

/-- A minus sign of the number is in the tree, a plus sign is not. -/
theorem exists_parse_callText (f : TrigFunction) (t : TypedNumber) :
    ∃ tokens polish, Evaluation.parse (callText f t) = .ok (tokens, polish, .call (.trig f) t.tree) := by
  have hends : Text.IsTrimmed (callText f t) :=
    (Name.function (.trig f)).isTrimmed_text.append (Text.isTrimmed_singleton rfl) ('(' :: t.text)
  have hlex : Evaluation.lex (callText f t) = .ok (.call (.trig f) :: .opening :: (t.tokens ++ [.closing])) := by
    rw [Evaluation.lex_eq_ok_iff, hends.trim_eq, ← Token.lex_eq_ok_iff]
    exact ⟨hends.ne_nil, t.lex_callText f⟩
  unfold tokens at hlex
  unfold tree
  rcases t.sign_mem with hsign | hsign | hsign
  · rw [hsign] at hlex ⊢
    exact ⟨_, [.number t.magnitude, .call (.trig f)], Evaluation.parse_eq_ok_iff.2 ⟨hlex, rfl, rfl⟩⟩
  · rw [hsign] at hlex ⊢
    exact ⟨_, [.number t.magnitude, .sign .plus, .call (.trig f)],
      Evaluation.parse_eq_ok_iff.2 ⟨hlex, rfl, rfl⟩⟩
  · rw [hsign] at hlex ⊢
    exact ⟨_, [.number t.magnitude, .sign .minus, .call (.trig f)],
      Evaluation.parse_eq_ok_iff.2 ⟨hlex, rfl, rfl⟩⟩

theorem underscore_not_mem_callText (f : TrigFunction) (t : TypedNumber) : '_' ∉ callText f t := by
  have hname : '_' ∉ f.name.toList := (Name.function (.trig f)).underscore_not_mem_text
  have hbefore : '_' ∉ t.before := fun h => absurd (t.isBlank_before '_' h) (by decide)
  have hafter : '_' ∉ t.after := fun h => absurd (t.isBlank_after '_' h) (by decide)
  have hsign : '_' ∉ t.sign := by rcases t.sign_mem with h | h | h <;> rw [h] <;> decide
  simp [callText, text, hname, hbefore, hafter, hsign, t.numeral.underscore_not_mem_text]

end TypedNumber

/-- What is read as an angle is a typed number. -/
theorem exists_of_readAngle {text : String} {x : Float} (h : readAngle text = .ok x) :
    ∃ t : TypedNumber, text.toList = t.text ∧ t.magnitude.isFinite = true ∧ x = t.value := by
  obtain ⟨before, after, htext, hbefore, hafter⟩ := Text.exists_of_trim text.toList
  unfold readAngle at h
  simp only at h
  split at h
  next y hy =>
    cases h
    obtain ⟨hsigned, hfinite⟩ := Option.filter_eq_some_iff.1 hy
    obtain ⟨sign, n, hsign, htrim, rfl⟩ := exists_of_signedDouble? hsigned
    let t : TypedNumber := ⟨before, sign, n, after, hbefore, hsign, hafter⟩
    refine ⟨t, by rw [htext, htrim, List.append_assoc]; rfl, ?_, rfl⟩
    split at hfinite
    · rwa [n.decimal.isFinite_neg_toFloat] at hfinite
    · exact hfinite
  next => cases h

/-- An angle in radians has the value of the expression that applies the function to its text. -/
theorem TrigFunction.atAngle_radians (f : TrigFunction) (text : String) (x : Float)
    (hread : readAngle text = .ok x) (hlength : f.name.length + text.length + 2 ≤ 2000) :
    f.atAngle text .radians =
      (Evaluation.ofText ({} : Settings).expressionLimit (f.name ++ "(" ++ text ++ ")")).map (·.value) := by
  obtain ⟨t, htext, hfinite, rfl⟩ := exists_of_readAngle hread
  obtain ⟨tokens, polish, hparse⟩ := t.exists_parse_callText f
  have hcs : (f.name ++ "(" ++ text ++ ")").toList = TypedNumber.callText f t := by
    simp [TypedNumber.callText, htext]
  have hunderscore : ¬Evaluation.hasDoubleUnderscore (TypedNumber.callText f t) = true := by
    rw [Evaluation.hasDoubleUnderscore_iff]
    exact fun h => t.underscore_not_mem_callText f (h.subset List.mem_cons_self)
  have hlimit : ¬({} : Settings).expressionLimit < (TypedNumber.callText f t).length := by
    have hsum : (f.name ++ "(" ++ text ++ ")").length = f.name.length + 1 + text.length + 1 := by
      rw [String.length_append, String.length_append, String.length_append]
      rfl
    rw [← hcs, String.length_toList, hsum]
    change ¬2000 < f.name.length + 1 + text.length + 1
    omega
  rw [Evaluation.ofText, hcs, if_neg hunderscore, if_neg hlimit, hparse]
  simp only [Expression.value, t.value_tree hfinite]
  rw [TrigFunction.atAngle, hread]
  change f.apply t.value = ((f.apply t.value).map _).map _
  cases f.apply t.value with
  | ok y => rfl
  | error e => rfl

/-- A signed number between blanks, of which the expression has two tokens. -/
theorem TrigFunction.atAngle_radians_of_signed : ∃ x, readAngle " -1.5e0 " = .ok x ∧
    TrigFunction.sin.name.length + " -1.5e0 ".length + 2 ≤ 2000 ∧
    TrigFunction.sin.atAngle " -1.5e0 " .radians =
      (Evaluation.ofText ({} : Settings).expressionLimit "sin( -1.5e0 )").map (·.value) := by
  have hnumber : readNumber? (Text.trim " -1.5e0 ".toList) = some (-1.5) := by decide +kernel
  have hread : readAngle " -1.5e0 " = .ok (-1.5) := by rw [readAngle, hnumber]
  have hlength : TrigFunction.sin.name.length + " -1.5e0 ".length + 2 ≤ 2000 := by decide
  exact ⟨-1.5, hread, hlength, TrigFunction.atAngle_radians .sin " -1.5e0 " (-1.5) hread hlength⟩

end DeskCalc
