import DeskCalc.Expression.Lexer
import DeskCalc.Proofs.Decimal.Numeral
import DeskCalc.Proofs.Stages
import DeskCalc.Proofs.Text.Blank
import Mathlib

/-!
The lexical grammar. A lexeme is a parenthesis, the symbol of an operator, a numeral or a word, and a word is
a run of letters, digits and underscores that does not start with a digit. A text is cut by dropping its
blanks and taking the longest lexeme everywhere else; a word that is no known name is taken whole and has no
token. The lexer finds the cut of a text exactly if there is one.
-/

namespace DeskCalc

/-- The texts with the form of a lexeme, with their tokens. -/
inductive Lexeme : List Char → Option Token → Prop
  | opening : Lexeme ['('] (some .opening)
  | closing : Lexeme [')'] (some .closing)
  | operator (op : BinaryOperator) : Lexeme op.symbol.toList (some (.operator op))
  | numeral (n : Numeral) : Lexeme n.text (some (.number n.decimal.toFloat))
  | word {c : Char} {cs : List Char} (hc : c.isAlpha = true ∨ c = '_')
      (hcs : ∀ x ∈ cs, Token.isWordPart x = true) :
      Lexeme (c :: cs) ((Name.ofText? (String.ofList (c :: cs))).map Token.ofName)

/-- No lexeme at the start of `w ++ rest` is longer than `w`. -/
def IsLongest (w rest : List Char) : Prop :=
  ∀ v v' t?, Lexeme v t? → w ++ rest = v ++ v' → v.length ≤ w.length

/-- The texts that can be cut into lexemes with tokens, and these tokens. -/
inductive Cut : List Char → List Token → Prop
  | nil : Cut [] []
  | blank {c : Char} {cs : List Char} {ts : List Token} (hc : Text.isBlank c = true) (hcs : Cut cs ts) :
      Cut (c :: cs) ts
  | lexeme {w rest : List Char} {t : Token} {ts : List Token} (hw : Lexeme w (some t))
      (hlongest : IsLongest w rest) (hrest : Cut rest ts) : Cut (w ++ rest) (t :: ts)

/-- The characters that only ever start a lexeme, and blanks. -/
def isBreak (c : Char) : Bool := Text.isBlank c || c == '(' || c == ')'

namespace Token

variable {c : Char} {cs rest : List Char} {t : Token} {t? : Option Token}

theorem isWordPart_of_isAlpha (h : c.isAlpha = true ∨ c = '_') : isWordPart c = true := by
  rcases h with h | rfl
  · simp [isWordPart, Char.isAlphanum, h]
  · rfl

theorem not_isDigit_of_isAlpha (h : c.isAlpha = true ∨ c = '_') : ¬(c.isDigit || c == '.') = true := by
  rcases h with h | rfl
  · simp only [Char.isAlpha, Char.isUpper, Char.isLower, Char.isDigit, Bool.or_eq_true, Bool.and_eq_true,
      decide_eq_true_eq, beq_iff_eq, ge_iff_le, UInt32.le_iff_toNat_le] at h ⊢
    rintro (hdigit | rfl)
    · have : 'A'.val.toNat = 65 ∧ 'a'.val.toNat = 97 ∧ '9'.val.toNat = 57 := by decide
      omega
    · revert h
      decide
  · decide

/-- The characters that start numerals and words are none of the signs. -/
theorem ne_sign_of_isWordPart (h : (isWordPart c || c == '.') = true) :
    c ≠ '(' ∧ c ≠ ')' ∧ c ≠ '+' ∧ c ≠ '-' ∧ c ≠ '/' ∧ c ≠ '*' := by
  refine ⟨?_, ?_, ?_, ?_, ?_, ?_⟩ <;> rintro rfl <;> revert h <;> decide

theorem isWordPart_of_isDigit (h : (c.isDigit || c == '.') = true) : (isWordPart c || c == '.') = true := by
  rcases Bool.or_eq_true_iff.1 h with h | h <;> simp [isWordPart, Char.isAlphanum, h]

theorem not_isBlank_of_isWordPart (h : (isWordPart c || c == '.') = true) : Text.isBlank c = false := by
  simp only [isWordPart, Char.isAlphanum, Char.isAlpha, Char.isUpper, Char.isLower, Char.isDigit,
    Bool.or_eq_true, Bool.and_eq_true, decide_eq_true_eq, beq_iff_eq, ge_iff_le,
    UInt32.le_iff_toNat_le] at h
  have hval : c.val.toNat = c.toNat := rfl
  have hrange : 'A'.val.toNat = 65 ∧ 'Z'.val.toNat = 90 ∧ 'a'.val.toNat = 97 ∧ 'z'.val.toNat = 122 ∧
    '0'.val.toNat = 48 ∧ '9'.val.toNat = 57 := by decide
  rcases h with (h | rfl) | rfl
  · simp only [Text.isBlank, Bool.or_eq_false_iff, Bool.and_eq_false_iff, decide_eq_false_iff_not,
      beq_eq_false_iff_ne]
    omega
  · rfl
  · rfl

theorem not_isBreak_of_isWordPart (h : (isWordPart c || c == '.') = true) : isBreak c = false := by
  obtain ⟨hopening, hclosing, -⟩ := ne_sign_of_isWordPart h
  simp [isBreak, not_isBlank_of_isWordPart h, hopening, hclosing]

theorem isWordPart_of_isPart (h : Numeral.isPart c = true) : (isWordPart c || c == '.') = true := by
  simp only [Numeral.isPart, Bool.or_eq_true, beq_iff_eq, or_assoc] at h
  rcases h with h | rfl | rfl | rfl
  · exact isWordPart_of_isDigit (by rw [h, Bool.true_or])
  · rfl
  · rfl
  · rfl

theorem lexeme_of_scan? (h : (c.isDigit || c == '.') = true) {d : Decimal}
    (hscan : Numeral.scan? (c :: cs) = some (d, rest)) : lexeme c cs = .ok (number d.toFloat, rest) := by
  obtain ⟨h1, h2, h3, h4, h5, h6⟩ := ne_sign_of_isWordPart (isWordPart_of_isDigit h)
  unfold lexeme
  rw [if_neg h1, if_neg h2, if_neg h3, if_neg h4, if_neg h5, if_neg h6, if_pos h]
  simp only [hscan]

theorem lexeme_of_isAlpha (h : c.isAlpha = true ∨ c = '_') (cs : List Char) : lexeme c cs = word c cs := by
  obtain ⟨h1, h2, h3, h4, h5, h6⟩ :=
    ne_sign_of_isWordPart (c := c) (by rw [isWordPart_of_isAlpha h, Bool.true_or])
  unfold lexeme
  rw [if_neg h1, if_neg h2, if_neg h3, if_neg h4, if_neg h5, if_neg h6,
    if_neg (not_isDigit_of_isAlpha h), if_pos (by simpa using h)]

end Token

theorem Name.mem_all (n : Name) : n ∈ Name.all := by
  rcases n with (⟨f⟩ | _ | _ | _) | c
  · cases f <;> decide
  · decide
  · decide
  · decide
  · cases c <;> decide

theorem Name.text_ne_nil (n : Name) : n.text.toList ≠ [] := by
  have h : ∀ m ∈ Name.all, m.text.toList ≠ [] := by decide
  exact h n n.mem_all

theorem Name.isAlpha_of_mem_text (n : Name) {c : Char} (hc : c ∈ n.text.toList) : c.isAlpha = true := by
  have h : ∀ m ∈ Name.all, m.text.toList.all Char.isAlpha = true := by decide
  exact List.all_eq_true.1 (h n n.mem_all) c hc

theorem Name.ofText?_text (n : Name) : Name.ofText? n.text = some n := by
  have h : ∀ m ∈ Name.all, Name.ofText? m.text = some m := by decide
  exact h n n.mem_all

/-- A known name is a word, and its token is that of the name. -/
theorem Lexeme.name (n : Name) : Lexeme n.text.toList (some (Token.ofName n)) := by
  have halpha := fun c hc => n.isAlpha_of_mem_text (c := c) hc
  obtain ⟨c, cs, hcs⟩ := List.exists_cons_of_ne_nil n.text_ne_nil
  rw [hcs] at halpha
  have hword := Lexeme.word (.inl (halpha c List.mem_cons_self)) fun x hx =>
    Token.isWordPart_of_isAlpha (.inl (halpha x (List.mem_cons_of_mem c hx)))
  rwa [← hcs, String.ofList_toList, n.ofText?_text] at hword

namespace Token

variable {c : Char} {cs rest : List Char} {t : Token} {t? : Option Token}

/-- A word is taken exactly if it is a name and does not go on. -/
theorem word_eq_ok_iff :
    word c cs = .ok (t, rest) ↔ ∃ name : Name, c :: cs = name.text.toList ++ rest ∧ t = ofName name ∧
      ∀ x ∈ rest.head?, isWordPart x = false := by
  constructor
  · intro h
    simp only [word] at h
    split at h
    next name hname =>
      cases h
      refine ⟨name, ?_, rfl, ?_⟩
      · rw [Name.text_of_ofText? hname, String.toList_ofList, List.cons_append,
          List.takeWhile_append_dropWhile]
      · intro x hx
        have hnot := List.head?_dropWhile_not isWordPart cs
        rw [Option.mem_def.1 hx] at hnot
        exact hnot
    next => cases h
  · rintro ⟨name, htext, rfl, hrest⟩
    obtain ⟨x, xs, hxs⟩ := List.exists_cons_of_ne_nil name.text_ne_nil
    have hparts : ∀ y ∈ xs, isWordPart y = true := by
      intro y hy
      apply isWordPart_of_isAlpha (.inl (name.isAlpha_of_mem_text _))
      rw [hxs]
      exact List.mem_cons_of_mem x hy
    have hname : Name.ofText? (String.ofList (x :: xs)) = some name := by
      rw [← hxs, String.ofList_toList, name.ofText?_text]
    rw [hxs, List.cons_append] at htext
    obtain ⟨rfl, rfl⟩ := List.cons.inj htext
    have hstop : rest.takeWhile isWordPart = [] ∧ rest.dropWhile isWordPart = rest := by
      cases rest with
      | nil => exact ⟨rfl, rfl⟩
      | cons y rest => simp [hrest y rfl]
    simp only [word, List.takeWhile_append_of_pos hparts, List.dropWhile_append_of_pos hparts, hstop,
      List.append_nil, hname]

/-- What a lexeme leaves is no more than what any lexeme at the same place leaves. -/
theorem length_le_of_lexeme {v v' : List Char} (hv : Lexeme v t?) (h : c :: cs = v ++ v')
    (hlexeme : lexeme c cs = .ok (t, rest)) : rest.length ≤ v'.length := by
  cases hv with
  | opening | closing =>
      obtain ⟨rfl, rfl⟩ := List.cons.inj h
      cases hlexeme
      exact Nat.le_refl _
  | operator op =>
      cases op with
      | pow =>
          obtain ⟨rfl, rfl⟩ := List.cons.inj h
          cases hlexeme
          exact Nat.le_refl _
      | add | sub | mul | div =>
          obtain ⟨rfl, rfl⟩ := List.cons.inj h
          exact length_lexeme_le hlexeme
  | numeral n =>
      obtain ⟨d, ds, hds, hd⟩ := n.exists_text_eq_cons
      have hc : c = d := (List.cons.inj (h.trans (by rw [hds]; rfl))).1
      obtain ⟨⟨d', left⟩, hscan⟩ := Option.ne_none_iff_exists'.1 (n.scan?_text_append_ne_none v')
      rw [lexeme_of_scan? (hc ▸ hd) (by rw [h, hscan])] at hlexeme
      cases hlexeme
      exact Numeral.length_le_of_scan? hscan
  | @word _ cs' hc hcs =>
      obtain ⟨rfl, rfl⟩ := List.cons.inj h
      rw [lexeme_of_isAlpha hc, word] at hlexeme
      split at hlexeme
      · cases hlexeme
        have hdrop : (cs' ++ v').dropWhile isWordPart = v'.dropWhile isWordPart :=
          List.dropWhile_append_of_pos hcs
        exact Nat.le_trans (Nat.le_of_eq (congrArg List.length hdrop)) (List.dropWhile_suffix _).length_le
      · cases hlexeme

/-- What is taken from the start of a text is a lexeme. -/
theorem exists_of_lexeme (h : lexeme c cs = .ok (t, rest)) :
    ∃ w, c :: cs = w ++ rest ∧ Lexeme w (some t) := by
  unfold lexeme at h
  split at h
  next hc =>
    cases h
    exact ⟨['('], by rw [hc]; rfl, .opening⟩
  split at h
  next hc =>
    cases h
    exact ⟨[')'], by rw [hc]; rfl, .closing⟩
  split at h
  next hc =>
    cases h
    exact ⟨['+'], by rw [hc]; rfl, .operator .add⟩
  split at h
  next hc =>
    cases h
    exact ⟨['-'], by rw [hc]; rfl, .operator .sub⟩
  split at h
  next hc =>
    cases h
    exact ⟨['/'], by rw [hc]; rfl, .operator .div⟩
  split at h
  next hc =>
    subst hc
    split at h
    · cases h
      exact ⟨['*', '*'], rfl, .operator .pow⟩
    · cases h
      exact ⟨['*'], rfl, .operator .mul⟩
  split at h
  next hc =>
    split at h
    next d left hscan =>
      cases h
      obtain ⟨n, hn, rfl⟩ := Numeral.exists_of_scan? hscan
      exact ⟨n.text, hn, .numeral n⟩
    next => cases h
  split at h
  next hc =>
    obtain ⟨name, hname, rfl, -⟩ := word_eq_ok_iff.1 h
    exact ⟨name.text.toList, hname, .name name⟩
  next => cases h

theorem isLongest_of_lexeme {w : List Char} (hw : c :: cs = w ++ rest) (h : lexeme c cs = .ok (t, rest)) :
    IsLongest w rest := by
  intro v v' t? hv hsame
  have hle := length_le_of_lexeme hv (hw.trans hsame) h
  have hlength := congrArg List.length hsame
  rw [List.length_append, List.length_append] at hlength
  omega

/-! A lexeme that is longest is the one that is taken. -/

theorem lexeme_mul (hlongest : IsLongest ['*'] cs) : lexeme '*' cs = .ok (operator .mul, cs) := by
  cases cs with
  | nil => rfl
  | cons x cs =>
      have hx : x ≠ '*' := by
        rintro rfl
        exact absurd (hlongest ['*', '*'] cs _ (.operator .pow) rfl) (by decide)
      simp [lexeme, hx]

theorem lexeme_numeral (n : Numeral) (hlongest : IsLongest n.text rest) (h : c :: cs = n.text ++ rest) :
    lexeme c cs = .ok (number n.decimal.toFloat, rest) := by
  obtain ⟨d, ds, hds, hd⟩ := n.exists_text_eq_cons
  have hc : c = d := (List.cons.inj (h.trans (by rw [hds]; rfl))).1
  -- the scanner takes a numeral that is no shorter, so it takes this one
  obtain ⟨⟨d', left⟩, hscan⟩ := Option.ne_none_iff_exists'.1 (n.scan?_text_append_ne_none rest)
  obtain ⟨n', hn', rfl⟩ := Numeral.exists_of_scan? hscan
  have hle := Numeral.length_le_of_scan? hscan
  have hge := hlongest n'.text left _ (.numeral n') hn'
  have hlength := congrArg List.length hn'
  rw [List.length_append, List.length_append] at hlength
  obtain ⟨htext, rfl⟩ := List.append_inj hn' (by omega)
  rw [lexeme_of_scan? (hc ▸ hd) (by rw [h, hscan]), Numeral.decimal_eq_of_text_eq htext]

/-- A word that is longest does not go on. -/
theorem not_isWordPart_of_isLongest (hc : c.isAlpha = true ∨ c = '_')
    (hcs : ∀ x ∈ cs, isWordPart x = true) (hlongest : IsLongest (c :: cs) rest) :
    ∀ x ∈ rest.head?, isWordPart x = false := by
  intro x hx
  obtain ⟨rest', rfl⟩ := List.head?_eq_some_iff.1 hx
  rw [← Bool.not_eq_true]
  intro hpart
  have hall : ∀ y ∈ cs ++ [x], isWordPart y = true := by
    simpa [or_imp, forall_and] using And.intro hcs hpart
  have hle := hlongest _ rest' _ (.word hc hall) (by simp)
  simp only [List.length_cons, List.length_append, List.length_nil] at hle
  omega

/-- The longest lexeme at the start of a text is taken. -/
theorem lexeme_eq_ok {w : List Char} (hw : Lexeme w (some t)) (hlongest : IsLongest w rest)
    (h : c :: cs = w ++ rest) : lexeme c cs = .ok (t, rest) := by
  generalize ht : some t = t? at hw
  cases hw with
  | opening | closing =>
      obtain ⟨rfl, rfl⟩ := List.cons.inj h
      cases ht
      rfl
  | operator op =>
      cases ht
      cases op with
      | mul =>
          obtain ⟨rfl, rfl⟩ := List.cons.inj h
          exact lexeme_mul hlongest
      | add | sub | div | pow =>
          obtain ⟨rfl, rfl⟩ := List.cons.inj h
          rfl
  | numeral n =>
      cases ht
      exact lexeme_numeral n hlongest h
  | word hc hcs =>
      obtain ⟨rfl, rfl⟩ := List.cons.inj h
      obtain ⟨name, hname, rfl⟩ := Option.map_eq_some_iff.1 ht.symm
      rw [lexeme_of_isAlpha hc, word_eq_ok_iff]
      refine ⟨name, ?_, rfl, not_isWordPart_of_isLongest hc hcs hlongest⟩
      rw [Name.text_of_ofText? hname, String.toList_ofList]
      exact h

end Token

namespace Lexeme

/-- No lexeme starts with a blank. -/
theorem exists_cons {w : List Char} {t? : Option Token} (h : Lexeme w t?) :
    ∃ c cs, w = c :: cs ∧ Text.isBlank c = false := by
  cases h with
  | opening => exact ⟨_, _, rfl, rfl⟩
  | closing => exact ⟨_, _, rfl, rfl⟩
  | operator op => cases op <;> exact ⟨_, _, rfl, rfl⟩
  | numeral n =>
      obtain ⟨c, cs, hcs, hc⟩ := n.exists_text_eq_cons
      exact ⟨c, cs, hcs, Token.not_isBlank_of_isWordPart (Token.isWordPart_of_isDigit hc)⟩
  | word hc hcs =>
      exact ⟨_, _, rfl, Token.not_isBlank_of_isWordPart (by rw [Token.isWordPart_of_isAlpha hc, Bool.true_or])⟩

/-- No lexeme goes on with a blank or a parenthesis. -/
theorem not_isBreak_of_mem_tail {w : List Char} {t? : Option Token} (h : Lexeme w t?) {c : Char}
    (hc : c ∈ w.tail) : isBreak c = false := by
  cases h with
  | opening | closing => cases hc
  | operator op =>
      cases op with
      | add | sub | mul | div => cases hc
      | pow =>
          obtain rfl := List.mem_singleton.1 hc
          rfl
  | numeral n =>
      rcases n.isPart_or_sign_of_mem_text (List.mem_of_mem_tail hc) with hpart | rfl | rfl
      · exact Token.not_isBreak_of_isWordPart (Token.isWordPart_of_isPart hpart)
      · rfl
      · rfl
  | word _ hcs => exact Token.not_isBreak_of_isWordPart (by rw [hcs c hc, Bool.true_or])

theorem isLongest_of_head? {w rest : List Char} {t? : Option Token} (hw : Lexeme w t?)
    (hrest : ∀ c ∈ rest.head?, isBreak c = true) : IsLongest w rest := by
  intro v v' t?' hv hsame
  rcases List.append_eq_append_iff.1 hsame with ⟨more, rfl, rfl⟩ | ⟨more, rfl, -⟩
  · cases more with
    | nil => simp
    | cons c more =>
        obtain ⟨x, xs, rfl, -⟩ := hw.exists_cons
        have hc := hv.not_isBreak_of_mem_tail (c := c) (by simp)
        rw [hrest c rfl] at hc
        cases hc
  · simp

end Lexeme

theorem Name.isTrimmed_text (n : Name) : Text.IsTrimmed n.text.toList := by
  refine .of_forall n.text_ne_nil fun c hc => Token.not_isBlank_of_isWordPart ?_
  rw [Token.isWordPart_of_isAlpha (.inl (n.isAlpha_of_mem_text hc)), Bool.true_or]

theorem Name.underscore_not_mem_text (n : Name) : '_' ∉ n.text.toList :=
  fun h => absurd (n.isAlpha_of_mem_text h) (by decide)

theorem Numeral.isTrimmed_text (n : Numeral) : Text.IsTrimmed n.text := by
  obtain ⟨c, cs, hcs, -⟩ := n.exists_text_eq_cons
  refine .of_forall (hcs ▸ List.cons_ne_nil c cs) fun c hc => ?_
  rcases n.isPart_or_sign_of_mem_text hc with hpart | rfl | rfl
  · exact Token.not_isBlank_of_isWordPart (Token.isWordPart_of_isPart hpart)
  · rfl
  · rfl

namespace Token

theorem lex_nil : lex [] = .ok [] := by
  unfold lex
  rfl

theorem lex_cons_of_isBlank {c : Char} (hc : Text.isBlank c = true) (cs : List Char) :
    lex (c :: cs) = lex cs := by
  conv => lhs; unfold lex
  exact if_pos hc

theorem lex_cons {c : Char} (hc : Text.isBlank c = false) (cs : List Char) :
    lex (c :: cs) = (lexeme c cs).bind fun found => (lex found.2).map (found.1 :: ·) := by
  conv => lhs; unfold lex
  simp only [hc, Bool.false_eq_true, if_false]
  split
  next h => rw [h]; rfl
  next h => rw [h]; rfl

theorem lex_cons_of_lexeme {c : Char} {cs rest : List Char} {t : Token} (hc : Text.isBlank c = false)
    (h : lexeme c cs = .ok (t, rest)) : lex (c :: cs) = (lex rest).map (t :: ·) := by
  rw [lex_cons hc, h]
  rfl

theorem lex_append_of_isLongest {w rest : List Char} {t : Token} (hw : Lexeme w (some t))
    (hlongest : IsLongest w rest) : lex (w ++ rest) = (lex rest).map (t :: ·) := by
  obtain ⟨c, cs, rfl, hc⟩ := hw.exists_cons
  exact lex_cons_of_lexeme hc (lexeme_eq_ok hw hlongest rfl)

/-- A lexeme before a blank or a parenthesis is taken. -/
theorem lex_append_of_head? {w rest : List Char} {t : Token} (hw : Lexeme w (some t))
    (hrest : ∀ c ∈ rest.head?, isBreak c = true) : lex (w ++ rest) = (lex rest).map (t :: ·) :=
  lex_append_of_isLongest hw (hw.isLongest_of_head? hrest)

theorem lex_append_of_isBlank {blanks : List Char} (h : ∀ c ∈ blanks, Text.isBlank c = true)
    (cs : List Char) : lex (blanks ++ cs) = lex cs := by
  induction blanks with
  | nil => rfl
  | cons c blanks ih =>
      rw [List.cons_append, lex_cons_of_isBlank (h c List.mem_cons_self),
        ih fun x hx => h x (List.mem_cons_of_mem c hx)]

/-- A text has a cut exactly if the lexer finds it. -/
theorem lex_eq_ok_iff {cs : List Char} {ts : List Token} : lex cs = .ok ts ↔ Cut cs ts := by
  constructor
  · intro h
    induction cs using lex.induct generalizing ts with
    | case1 =>
        rw [lex_nil] at h
        cases h
        exact .nil
    | case2 c cs hc ih =>
        rw [lex_cons_of_isBlank hc] at h
        exact .blank hc (ih h)
    | case3 c cs hc fault hlexeme =>
        rw [lex_cons (by simpa using hc), hlexeme] at h
        cases h
    | case4 c cs hc t rest hlexeme _ ih =>
        rw [lex_cons_of_lexeme (by simpa using hc) hlexeme] at h
        obtain ⟨w, hw, ht⟩ := exists_of_lexeme hlexeme
        obtain ⟨us, hrest, rfl⟩ := map_eq_ok_iff.1 h
        rw [hw]
        exact .lexeme ht (isLongest_of_lexeme hw hlexeme) (ih hrest)
  · intro h
    induction h with
    | nil => exact lex_nil
    | blank hc hcs ih => rw [lex_cons_of_isBlank hc, ih]
    | lexeme hw hlongest hrest ih =>
        rw [lex_append_of_isLongest hw hlongest, ih]
        rfl

end Token

theorem Cut.opening {cs : List Char} {ts : List Token} (h : Cut cs ts) :
    Cut (['('] ++ cs) (.opening :: ts) :=
  .lexeme .opening (Token.isLongest_of_lexeme rfl rfl) h

theorem Cut.closing {cs : List Char} {ts : List Token} (h : Cut cs ts) :
    Cut ([')'] ++ cs) (.closing :: ts) :=
  .lexeme .closing (Token.isLongest_of_lexeme rfl rfl) h

end DeskCalc
