import DeskCalc.Proofs.Decimal.Rounding
import DeskCalc.Proofs.Expression.Lexing

/-!
The cut of a text in terms of what is written. A token is that of its lexeme: a sign, the double nearest to the
number that is written, or one of fourteen names. The lexer takes a piece from the start of a text exactly if it
is the longest lexeme there and has a token; so a word is taken whole or not at all, and only blanks are ever left
out.
-/

namespace DeskCalc

/-- The texts that have a token, and this token. -/
inductive Denotes : List Char → Token → Prop
  | opening : Denotes ['('] .opening
  | closing : Denotes [')'] .closing
  | operator (op : BinaryOperator) : Denotes op.symbol.toList (.operator op)
  | numeral (n : Numeral) {x : Float} (hsign : Binary64.isNegative x = false)
      (hx : Binary64.IsNearest n.value (Binary64.ordinal x)) : Denotes n.text (.number x)
  | name (n : Name) : Denotes n.text.toList (.ofName n)

theorem Lexeme.some_iff_denotes {w : List Char} {t : Token} : Lexeme w (some t) ↔ Denotes w t := by
  constructor
  · intro h
    generalize ht : some t = t? at h
    cases h with
    | opening =>
        cases ht
        exact .opening
    | closing =>
        cases ht
        exact .closing
    | operator op =>
        cases ht
        exact .operator op
    | numeral n =>
        cases ht
        obtain ⟨hsign, hx⟩ := (n.toFloat_decimal_eq_iff _).1 rfl
        exact .numeral n hsign hx
    | @word c cs hc hcs =>
        obtain ⟨name, hname, rfl⟩ := Option.map_eq_some_iff.1 ht.symm
        have htext : name.text.toList = c :: cs := by
          rw [Name.text_of_ofText? hname, String.toList_ofList]
        rw [← htext]
        exact .name name
  · intro h
    cases h with
    | opening => exact .opening
    | closing => exact .closing
    | operator op => exact .operator op
    | numeral n hsign hx =>
        rw [← (n.toFloat_decimal_eq_iff _).2 ⟨hsign, hx⟩]
        exact .numeral n
    | name n => exact .name n

/-! ### One lexeme -/

namespace Token

variable {c : Char} {cs rest : List Char} {t : Token}

/-- The lexer takes the longest lexeme at the start of a text, if it has a token. -/
theorem lexeme_eq_ok_iff :
    lexeme c cs = .ok (t, rest) ↔ ∃ w, w ≠ [] ∧ c :: cs = w ++ rest ∧ Denotes w t ∧ IsLongest w rest := by
  constructor
  · intro h
    obtain ⟨w, hw, ht⟩ := exists_of_lexeme h
    obtain ⟨x, xs, hxs, -⟩ := ht.exists_cons
    refine ⟨w, ?_, hw, Lexeme.some_iff_denotes.1 ht, isLongest_of_lexeme hw h⟩
    rw [hxs]
    exact List.cons_ne_nil x xs
  · rintro ⟨w, -, hw, ht, hlongest⟩
    exact lexeme_eq_ok (Lexeme.some_iff_denotes.2 ht) hlongest hw

end Token

/-! ### All lexemes -/

theorem Lexeme.not_isBlank_of_mem {w : List Char} {t? : Option Token} (h : Lexeme w t?) {c : Char}
    (hc : c ∈ w) : Text.isBlank c = false := by
  obtain ⟨x, xs, rfl, hx⟩ := h.exists_cons
  rcases List.mem_cons.1 hc with rfl | hc
  · exact hx
  · have hbreak := h.not_isBreak_of_mem_tail hc
    simp only [isBreak, Bool.or_eq_false_iff] at hbreak
    exact hbreak.1.1

/-- The lexemes of a text make up all of it but its blanks. -/
theorem Cut.exists_lexemes {cs : List Char} {ts : List Token} (h : Cut cs ts) :
    ∃ ws : List (List Char), ws.flatten = cs.filter (!Text.isBlank ·) ∧ List.Forall₂ Denotes ws ts := by
  induction h with
  | nil => exact ⟨[], rfl, .nil⟩
  | blank hc hcs ih =>
      obtain ⟨ws, hws, hts⟩ := ih
      refine ⟨ws, ?_, hts⟩
      rw [hws, List.filter_cons_of_neg (by simp [hc])]
  | @lexeme w rest t ts hw hlongest hrest ih =>
      obtain ⟨ws, hws, hts⟩ := ih
      have hblank : w.filter (!Text.isBlank ·) = w := by
        apply List.filter_eq_self.2
        intro c hc
        rw [hw.not_isBlank_of_mem hc]
        rfl
      refine ⟨w :: ws, ?_, .cons (Lexeme.some_iff_denotes.1 hw) hts⟩
      rw [List.flatten_cons, List.filter_append, hws, hblank]

namespace Token

/-- Every text has its cut or none, and the lexer finds the one and refuses the other. -/
theorem exists_lex_eq_error_iff {cs : List Char} :
    (∃ fault, lex cs = .error fault) ↔ ∀ ts, ¬Cut cs ts := by
  constructor
  · rintro ⟨fault, hfault⟩ ts hcut
    cases hfault.symm.trans (lex_eq_ok_iff.2 hcut)
  · intro h
    cases hlex : lex cs with
    | error fault => exact ⟨fault, rfl⟩
    | ok ts => exact absurd (lex_eq_ok_iff.1 hlex) (h ts)

/-- The lexer takes the longest lexeme at every place of a text and leaves out nothing but blanks. -/
theorem lex_longest (text : String) :
    (∀ ts, lex text.toList = .ok ts ↔ Cut text.toList ts) ∧
    ((∃ fault, lex text.toList = .error fault) ↔ ∀ ts, ¬Cut text.toList ts) ∧
    (∀ ts, Cut text.toList ts → ∃ ws : List (List Char),
      ws.flatten = text.toList.filter (!Text.isBlank ·) ∧ List.Forall₂ Denotes ws ts) ∧
    (∀ w t, Lexeme w (some t) ↔ Denotes w t) ∧
    (∀ c cs t rest, lexeme c cs = .ok (t, rest) ↔
      ∃ w, w ≠ [] ∧ c :: cs = w ++ rest ∧ Denotes w t ∧ IsLongest w rest) ∧
    (∀ c cs t rest, c.isAlpha = true ∨ c = '_' → (lexeme c cs = .ok (t, rest) ↔
      ∃ name : Name, c :: cs = name.text.toList ++ rest ∧ t = ofName name ∧
        ∀ x ∈ rest.head?, isWordPart x = false)) ∧
    ∀ word : String, (∃ name : Name, name.text = word) ↔
      word ∈ ["sin", "cos", "tan", "asin", "acos", "atan", "sinh", "cosh", "tanh", "sqrt", "log", "exp", "pi", "e"] := by
  refine ⟨fun _ => lex_eq_ok_iff, exists_lex_eq_error_iff, fun _ => Cut.exists_lexemes,
    fun _ _ => Lexeme.some_iff_denotes, fun _ _ _ _ => lexeme_eq_ok_iff, ?_, ?_⟩
  · intro c cs t rest hc
    rw [lexeme_of_isAlpha hc, word_eq_ok_iff]
  · intro word
    have hall : Name.all.map Name.text = ["sin", "cos", "tan", "asin", "acos", "atan", "sinh", "cosh", "tanh", "sqrt",
        "log", "exp", "pi", "e"] := by
      decide
    rw [← hall, List.mem_map]
    constructor
    · rintro ⟨name, hname⟩
      exact ⟨name, name.mem_all, hname⟩
    · rintro ⟨name, -, hname⟩
      exact ⟨name, hname⟩

/-- An exponent without digits is no part of a numeral, and the word after the numeral is taken whole. -/
theorem lex_longest_of_call :
    lex "2exp( .5e+1)".toList = .ok [number 2, call .exp, opening, number 5, closing] ∧
    (∃ ws : List (List Char), ws.flatten = "2exp(.5e+1)".toList ∧
      List.Forall₂ Denotes ws [number 2, call .exp, opening, number 5, closing]) ∧
    lexeme 'e' "xp( .5e+1)".toList = .ok (call .exp, "( .5e+1)".toList) := by
  have hlex : lex "2exp( .5e+1)".toList = .ok [number 2, call .exp, opening, number 5, closing] := by
    decide +kernel
  obtain ⟨hcut, -, hpieces, -, -, hword, -⟩ := lex_longest "2exp( .5e+1)"
  refine ⟨hlex, hpieces _ ((hcut _).1 hlex), ?_⟩
  apply (hword _ _ _ _ (.inl rfl)).2
  refine ⟨.function .exp, rfl, rfl, ?_⟩
  rintro x ⟨⟩
  rfl

end Token

end DeskCalc
