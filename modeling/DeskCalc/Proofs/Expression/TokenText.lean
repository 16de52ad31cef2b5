import DeskCalc.Proofs.Expression.LongestMatch
import DeskCalc.Proofs.Expression.RoundTrip
import DeskCalc.Session.Output

/-!
Listed tokens that are read again. A token that can be typed is written as a lexeme, and a blank keeps it from its
neighbours, so the list is cut into the tokens that it was written from. The tokens of an evaluated expression can
all be typed, and the list of them is evaluated with the same forms and the same value.
-/

namespace DeskCalc

namespace Token

variable {t : Token} {ts : List Token}

/-- The tokens that a typed text can have, but for numbers that are not finite. -/
def IsTyped : Token → Prop
  | number v => IsLiteral v
  | sign _ => False
  | constant _ | call _ | operator _ | opening | closing => True

/-- The number that a token is, if it is one. -/
def literal? : Token → Option Float
  | number v => some v
  | constant _ | call _ | operator _ | sign _ | opening | closing => none

namespace IsTyped

theorem lexeme (h : t.IsTyped) : Lexeme t.text.toList (some t) := by
  cases t with
  | number v =>
      obtain ⟨n, hn, hv⟩ := exists_numeral_plainText h
      rw [text, hn, ← hv]
      exact .numeral n
  | constant c => exact .name (.constant c)
  | call f => exact .name (.function f)
  | operator op => exact .operator op
  | sign s => cases h
  | opening => exact .opening
  | closing => exact .closing

theorem underscore_not_mem_text (h : t.IsTyped) : '_' ∉ t.text.toList := by
  cases t with
  | number v =>
      obtain ⟨n, hn, -⟩ := exists_numeral_plainText h
      rw [text, hn]
      exact n.underscore_not_mem_text
  | constant c => exact (Name.constant c).underscore_not_mem_text
  | call f => exact (Name.function f).underscore_not_mem_text
  | operator op => cases op <;> decide
  | sign s => cases h
  | opening | closing => decide

theorem isTrimmed_text (h : t.IsTyped) : Text.IsTrimmed t.text.toList := by
  obtain ⟨c, cs, hcs, -⟩ := h.lexeme.exists_cons
  exact .of_forall (hcs ▸ List.cons_ne_nil c cs) fun x hx => h.lexeme.not_isBlank_of_mem hx

end IsTyped

/-! ### The list -/

theorem toList_listText_nil : (listText []).toList = [] := rfl

theorem toList_listText_singleton (t : Token) : (listText [t]).toList = t.text.toList := by
  simp [listText]

theorem toList_listText_cons_cons (t u : Token) (ts : List Token) :
    (listText (t :: u :: ts)).toList = t.text.toList ++ ' ' :: (listText (u :: ts)).toList := by
  simp [listText, String.intercalate_cons_cons]

/-- The list of tokens is cut into them. -/
theorem lex_listText (h : ∀ t ∈ ts, t.IsTyped) : lex (listText ts).toList = .ok ts := by
  induction ts with
  | nil => rw [toList_listText_nil, lex_nil]
  | cons t ts ih =>
      obtain ⟨ht, hts⟩ := List.forall_mem_cons.1 h
      cases ts with
      | nil =>
          have hend : ∀ c ∈ ([] : List Char).head?, isBreak c = true := nofun
          have hlex := lex_append_of_head? ht.lexeme hend
          rw [List.append_nil, lex_nil] at hlex
          rw [toList_listText_singleton, hlex]
          rfl
      | cons u ts =>
          have hblank : ∀ c ∈ (' ' :: (listText (u :: ts)).toList).head?, isBreak c = true := by
            rintro c ⟨⟩
            rfl
          rw [toList_listText_cons_cons, lex_append_of_head? ht.lexeme hblank, lex_cons_of_isBlank rfl, ih hts]
          rfl

theorem isTrimmed_listText (h : ∀ t ∈ ts, t.IsTyped) (hne : ts ≠ []) : Text.IsTrimmed (listText ts).toList := by
  induction ts with
  | nil => exact absurd rfl hne
  | cons t ts ih =>
      obtain ⟨ht, hts⟩ := List.forall_mem_cons.1 h
      cases ts with
      | nil =>
          rw [toList_listText_singleton]
          exact ht.isTrimmed_text
      | cons u ts =>
          rw [toList_listText_cons_cons]
          exact ht.isTrimmed_text.append (ih hts (List.cons_ne_nil u ts)) [' ']

theorem underscore_not_mem_listText (h : ∀ t ∈ ts, t.IsTyped) : '_' ∉ (listText ts).toList := by
  induction ts with
  | nil => simp [toList_listText_nil]
  | cons t ts ih =>
      obtain ⟨ht, hts⟩ := List.forall_mem_cons.1 h
      cases ts with
      | nil =>
          rw [toList_listText_singleton]
          exact ht.underscore_not_mem_text
      | cons u ts =>
          rw [toList_listText_cons_cons]
          simp [ht.underscore_not_mem_text, ih hts]

end Token

/-! ### The tokens of an evaluated expression -/

/-- The numbers of a sentence are those of the expression, in the same order. -/
theorem Derivation.filterMap_literal?_tokens {p : Phrase} (d : Derivation p) :
    d.tokens.filterMap Token.literal? = d.tree.literals := by
  induction d with
  | number v => rfl
  | constant c => rfl
  | call f e ih | group e ih => simp [tokens, tree, Expression.literals, Token.literal?, List.filterMap_cons, ih]
  | signed s u ih => cases s <;> simp [tokens, tree, Expression.literals, Token.literal?, List.filterMap_cons, ih]
  | raise a e iha ihb | multiply l op h r iha ihb | add l op h r iha ihb =>
      simp [tokens, tree, Expression.literals, Token.literal?, List.filterMap_cons, iha, ihb]
  | base a ih | plain q ih | factor u ih | single t ih => exact ih

theorem Lexeme.isTyped {w : List Char} {t : Token} (h : Lexeme w (some t))
    (hfinite : ∀ v, t = .number v → v.isFinite = true) : t.IsTyped := by
  generalize ht : some t = t? at h
  cases h with
  | opening | closing | operator =>
      cases ht
      trivial
  | numeral n =>
      cases ht
      exact ⟨hfinite _ rfl, n.decimal.isNegative_toFloat⟩
  | word =>
      obtain ⟨name, -, rfl⟩ := Option.map_eq_some_iff.1 ht.symm
      cases name <;> trivial

theorem Cut.isTyped_of_mem {cs : List Char} {ts : List Token} (h : Cut cs ts)
    (hfinite : ∀ v, .number v ∈ ts → v.isFinite = true) : ∀ t ∈ ts, t.IsTyped := by
  induction h with
  | nil => exact nofun
  | blank _ _ ih => exact ih hfinite
  | lexeme hw _ _ ih =>
      refine List.forall_mem_cons.2 ⟨hw.isTyped ?_, ih fun v hv => hfinite v (List.mem_cons_of_mem _ hv)⟩
      rintro v rfl
      exact hfinite v List.mem_cons_self

namespace Evaluation

theorem isTyped_of_ofText {limit : Nat} {text : String} {r : Evaluation} (h : ofText limit text = .ok r) :
    ∀ t ∈ r.tokens, t.IsTyped := by
  obtain ⟨hparse, hvalue⟩ := parse_of_ofText h
  obtain ⟨hlex, hpolish, htree⟩ := parse_eq_ok_iff.1 hparse
  obtain ⟨d, htokens, hpostorder⟩ := Token.exists_derivation_of_toPolish hpolish
  rw [← hpostorder, d.ofPolish_postorder] at htree
  apply (lex_eq_ok_iff.1 hlex).2.isTyped_of_mem
  intro v hv
  apply Expression.isFinite_of_value hvalue
  rw [← Except.ok.inj htree, ← d.filterMap_literal?_tokens, htokens]
  exact List.mem_filterMap.2 ⟨.number v, hv, rfl⟩

/-- The listed tokens of an evaluated expression have the same forms and the same value. -/
theorem ofText_listText {limit limit' : Nat} {text : String} {r : Evaluation} (h : ofText limit text = .ok r)
    (hlength : (Token.listText r.tokens).toList.length ≤ limit') :
    ofText limit' (Token.listText r.tokens) = .ok r := by
  obtain ⟨hparse, hvalue⟩ := parse_of_ofText h
  obtain ⟨-, hpolish, htree⟩ := parse_eq_ok_iff.1 hparse
  have htyped := isTyped_of_ofText h
  have hne : r.tokens ≠ [] := by
    intro hnil
    rw [hnil] at hpolish
    cases hpolish
  have htrimmed := Token.isTrimmed_listText htyped hne
  have hlex : lex (Token.listText r.tokens).toList = .ok r.tokens := by
    rw [lex_eq_ok_iff, htrimmed.trim_eq, ← Token.lex_eq_ok_iff]
    exact ⟨htrimmed.ne_nil, Token.lex_listText htyped⟩
  have hunderscore : ¬hasDoubleUnderscore (Token.listText r.tokens).toList = true := by
    rw [hasDoubleUnderscore_iff]
    exact fun hpart => Token.underscore_not_mem_listText htyped (hpart.subset List.mem_cons_self)
  rw [ofText, if_neg hunderscore, if_neg (Nat.not_lt.2 hlength), parse_eq_ok_iff.2 ⟨hlex, hpolish, htree⟩]
  simp only [hvalue]
  rfl

/-- Listed tokens are read as these tokens, whatever neighbours meet, and the tokens that are shown of an evaluated
expression, if they are not too many characters, are evaluated with the same value and the same workings. -/
theorem listText_read_again :
    (∀ ts : List Token, (∀ t ∈ ts, t.IsTyped) → Token.lex (Token.listText ts).toList = .ok ts) ∧
    ∀ (settings settings' : Settings) (text : String) (r : Evaluation),
      ofText settings.expressionLimit text = .ok r →
      (Workings.ofEvaluation r).tokens.length ≤ settings'.expressionLimit →
      ∃ r', ofText settings'.expressionLimit (Workings.ofEvaluation r).tokens = .ok r' ∧
        r'.value = r.value ∧ Workings.ofEvaluation r' = Workings.ofEvaluation r := by
  refine ⟨fun _ => Token.lex_listText, ?_⟩
  intro settings settings' text r h hlength
  exact ⟨r, ofText_listText h hlength, rfl, rfl⟩

open Token in
/-- A long number before the constant `e`, `*` before `**`, and the tokens of an evaluated expression. -/
theorem listText_read_again_of_neighbours :
    lex "1000000000000000000000 e * ** exp 0.5 e".toList =
      .ok [number 1e21, constant .e, operator .mul, operator .pow, call .exp, number 0.5, constant .e] ∧
    ∃ r r', ofText 2000 "2e21*(.5--pi)" = .ok r ∧ ofText 40 "2000000000000000000000 * ( 0.5 - - pi )" = .ok r' ∧
      r'.value = r.value ∧ Workings.ofEvaluation r' = Workings.ofEvaluation r := by
  obtain ⟨hlist, heval⟩ := listText_read_again
  constructor
  · have hlarge : IsLiteral 1e21 := ⟨by decide +kernel, by decide +kernel⟩
    have hhalf : IsLiteral 0.5 := ⟨by decide +kernel, by decide +kernel⟩
    have htyped : ∀ t ∈ [number 1e21, constant .e, operator .mul, operator .pow, call .exp, number 0.5, constant .e],
        t.IsTyped := by
      simp [IsTyped, hlarge, hhalf]
    have htext : listText [number 1e21, constant .e, operator .mul, operator .pow, call .exp, number 0.5, constant .e] =
        "1000000000000000000000 e * ** exp 0.5 e" := by
      decide +kernel
    have hlex := hlist _ htyped
    rwa [htext] at hlex
  · have htokens : (ofText 2000 "2e21*(.5--pi)").toOption.map (·.tokens) =
        some [number 2e21, operator .mul, opening, number 0.5, operator .sub, operator .sub, constant .pi, closing] := by
      decide +kernel
    cases h : ofText 2000 "2e21*(.5--pi)" with
    | error e =>
        rw [h] at htokens
        cases htokens
    | ok r =>
        rw [h] at htokens
        have htext : (Workings.ofEvaluation r).tokens = "2000000000000000000000 * ( 0.5 - - pi )" :=
          (congrArg listText (Option.some.inj htokens)).trans (by decide +kernel)
        have hlength : (Workings.ofEvaluation r).tokens.length ≤ 40 := by
          rw [htext]
          decide
        obtain ⟨r', hr', hvalue, hworkings⟩ :=
          heval {} { expressionLimit := 40 } "2e21*(.5--pi)" r h hlength
        rw [htext] at hr'
        exact ⟨r, r', rfl, hr', hvalue, hworkings⟩

end Evaluation

end DeskCalc
