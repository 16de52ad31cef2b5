import DeskCalc.Proofs.Display.Number
import DeskCalc.Proofs.Expression.Outcome
import DeskCalc.Proofs.Expression.Rendering
import DeskCalc.Proofs.Text.Blank
import DeskCalc.Settings

/-!
The text of an evaluated expression, evaluated again. The numbers in it were typed, so they are written as
numerals and read as themselves, and the text is cut into the tokens that it was put together from. Unless it
is refused for its length or its nesting, it is evaluated as the expression that these tokens mean: the same
one if no power has a base with a sign, and one with another text otherwise.
-/

namespace DeskCalc

/-- The doubles that a numeral can denote. -/
def IsLiteral (v : Float) : Prop := v.isFinite = true ∧ Binary64.isNegative v = false

namespace Expression

/-- Whether all numbers of an expression can be typed. -/
def Typable (e : Expression) : Prop := ∀ v ∈ e.literals, IsLiteral v

theorem typable_reread {e : Expression} : e.reread.Typable ↔ e.Typable := by
  rw [Typable, literals_reread, Typable]

end Expression

/-! ### Numbers of an evaluated expression -/

section Literals

theorem Expression.isFinite_of_value {e : Expression} {x : Float} (h : e.value = .ok x) :
    ∀ v ∈ e.literals, v.isFinite = true := by
  induction e generalizing x with
  | number v =>
      intro w hw
      obtain rfl := List.mem_singleton.1 hw
      unfold value at h
      split at h
      next hfinite => exact hfinite
      next => cases h
  | constant c =>
      intro v hv
      cases hv
  | negative e ih =>
      obtain ⟨y, he, -⟩ := map_eq_ok_iff.1 h
      exact ih he
  | call f e ih =>
      obtain ⟨y, he, -⟩ := bind_eq_ok_iff.1 h
      exact ih he
  | binary op a b iha ihb =>
      obtain ⟨y, ha, h⟩ := bind_eq_ok_iff.1 h
      obtain ⟨z, hb, -⟩ := bind_eq_ok_iff.1 h
      exact List.forall_mem_append.2 ⟨iha ha, ihb hb⟩

theorem Lexeme.isNegative_of_number {w : List Char} {v : Float} (h : Lexeme w (some (.number v))) :
    Binary64.isNegative v = false := by
  generalize ht : some (Token.number v) = t? at h
  cases h with
  | numeral n =>
      cases ht
      exact n.decimal.isNegative_toFloat
  | opening | closing | operator => cases ht
  | word =>
      obtain ⟨name, -, hname⟩ := Option.map_eq_some_iff.1 ht.symm
      cases name <;> cases hname

theorem Cut.isNegative_of_mem {cs : List Char} {ts : List Token} (h : Cut cs ts) {v : Float}
    (hv : .number v ∈ ts) : Binary64.isNegative v = false := by
  induction h with
  | nil => cases hv
  | blank _ _ ih => exact ih hv
  | lexeme hw _ _ ih =>
      rcases List.mem_cons.1 hv with rfl | hv
      · exact hw.isNegative_of_number
      · exact ih hv

theorem Derivation.number_mem_tokens {p : Phrase} {d : Derivation p} {v : Float} (h : v ∈ d.tree.literals) :
    .number v ∈ d.tokens := by
  induction d with
  | number w =>
      obtain rfl := List.mem_singleton.1 h
      exact List.mem_cons_self
  | constant c => cases h
  | call f e ih =>
      have := ih h
      simp [tokens, this]
  | group e ih =>
      have := ih h
      simp [tokens, this]
  | signed s u ih =>
      have := ih (by cases s <;> exact h)
      simp [tokens, this]
  | raise a e iha ihe =>
      rcases List.mem_append.1 h with h | h
      · simp [tokens, iha h]
      · simp [tokens, ihe h]
  | multiply l op _ r ihl ihr =>
      rcases List.mem_append.1 h with h | h
      · simp [tokens, ihl h]
      · simp [tokens, ihr h]
  | add l op _ r ihl ihr =>
      rcases List.mem_append.1 h with h | h
      · simp [tokens, ihl h]
      · simp [tokens, ihr h]
  | base a ih => exact ih h
  | plain q ih => exact ih h
  | factor u ih => exact ih h
  | single t ih => exact ih h

/-- An evaluated expression has a value and could be typed. -/
theorem Evaluation.typable_of_ofText {limit : Nat} {text : String} {r : Evaluation}
    (h : ofText limit text = .ok r) : r.tree.value = .ok r.value ∧ r.tree.Typable := by
  obtain ⟨hparse, hvalue⟩ := parse_of_ofText h
  refine ⟨hvalue, fun v hv => ⟨Expression.isFinite_of_value hvalue v hv, ?_⟩⟩
  obtain ⟨hlex, hpolish, htree⟩ := parse_eq_ok_iff.1 hparse
  obtain ⟨d, htokens, hpostorder⟩ := Token.exists_derivation_of_toPolish hpolish
  rw [← hpostorder, d.ofPolish_postorder] at htree
  rw [← Except.ok.inj htree] at hv
  rw [← htokens] at hlex
  exact (lex_eq_ok_iff.1 hlex).2.isNegative_of_mem (Derivation.number_mem_tokens hv)

end Literals

/-! ### The text -/

theorem exists_numeral_plainText {v : Float} (h : IsLiteral v) :
    ∃ n : Numeral, (plainText v).toList = n.text ∧ n.decimal.toFloat = v := by
  obtain ⟨hfinite, hsign⟩ := h
  obtain ⟨n, htext, hvalue⟩ := Style.exists_numeral_text Style.plain_writesExponents Binary64.shortest hfinite
  refine ⟨n, ?_, hvalue.trans (Style.toFloat_shortest hfinite hsign)⟩
  rw [plainText, String.toList_ofList, htext, hsign]
  rfl

namespace Expression

theorem text_number (v : Float) : (number v).text = plainText v := rfl

theorem text_negative (e : Expression) : (negative e).text = "-" ++ e.text := rfl

theorem text_binary (op : BinaryOperator) (a b : Expression) :
    (binary op a b).text = "(" ++ a.text ++ " " ++ op.symbol ++ " " ++ b.text ++ ")" := rfl

theorem text_call (f : Elementary) (e : Expression) : (call f e).text = f.name ++ "(" ++ e.text ++ ")" := rfl

theorem toList_text_binary (op : BinaryOperator) (a b : Expression) (rest : List Char) :
    (binary op a b).text.toList ++ rest =
      ['('] ++ (a.text.toList ++ ' ' :: (op.symbol.toList ++ ' ' :: (b.text.toList ++ ([')'] ++ rest)))) := by
  simp [text_binary]

theorem toList_text_call (f : Elementary) (e : Expression) (rest : List Char) :
    (call f e).text.toList ++ rest = f.name.toList ++ (['('] ++ (e.text.toList ++ ([')'] ++ rest))) := by
  simp [text_call]

/-- The text of an expression is cut into its tokens. -/
theorem cut_text_append {e : Expression} (he : e.Typable) {rest : List Char} {ts : List Token}
    (hrest : ∀ c ∈ rest.head?, isBreak c = true) (hcut : Cut rest ts) :
    Cut (e.text.toList ++ rest) (e.typed ++ ts) := by
  have hblank : ∀ cs : List Char, ∀ c ∈ (' ' :: cs).head?, isBreak c = true := by
    rintro cs c ⟨⟩
    rfl
  have hparenthesis : ∀ cs : List Char, ∀ c ∈ ([')'] ++ cs).head?, isBreak c = true := by
    rintro cs c ⟨⟩
    rfl
  induction e generalizing rest ts with
  | number v =>
      obtain ⟨n, hn, hv⟩ := exists_numeral_plainText (he v List.mem_cons_self)
      have hlexeme : Lexeme n.text (some (.number v)) := hv ▸ Lexeme.numeral n
      rw [text_number, hn]
      exact .lexeme hlexeme (hlexeme.isLongest_of_head? hrest) hcut
  | constant c =>
      have hlexeme := Lexeme.name (.constant c)
      exact .lexeme hlexeme (hlexeme.isLongest_of_head? hrest) hcut
  | negative e ih =>
      have htext : (negative e).text.toList ++ rest = ['-'] ++ (e.text.toList ++ rest) := by
        simp [text_negative]
      rw [htext]
      exact .lexeme (.operator .sub) (Token.isLongest_of_lexeme rfl rfl) (ih he hrest hcut)
  | call f e ih =>
      have hname := Lexeme.name (.function f)
      have hargument := ih he (hparenthesis rest) hcut.closing
      have htyped : (call f e).typed ++ ts = .call f :: .opening :: (e.typed ++ .closing :: ts) := by
        simp [typed]
      rw [toList_text_call, htyped]
      refine .lexeme hname (hname.isLongest_of_head? ?_) hargument.opening
      rintro c ⟨⟩
      rfl
  | binary op a b iha ihb =>
      obtain ⟨ha, hb⟩ := List.forall_mem_append.1 he
      have hright := Cut.blank (c := ' ') rfl (ihb hb (hparenthesis rest) hcut.closing)
      have hoperator := Cut.lexeme (.operator op) ((Lexeme.operator op).isLongest_of_head? (hblank _)) hright
      have hleft := iha ha (hblank _) (Cut.blank (c := ' ') rfl hoperator)
      have htyped : (binary op a b).typed ++ ts =
          .opening :: (a.typed ++ .operator op :: (b.typed ++ .closing :: ts)) := by
        simp [typed]
      rw [toList_text_binary, htyped]
      exact hleft.opening

/-- The text of an expression neither starts nor ends with a blank. -/
theorem isTrimmed_text {e : Expression} (he : e.Typable) : Text.IsTrimmed e.text.toList := by
  induction e with
  | number v =>
      obtain ⟨n, hn, -⟩ := exists_numeral_plainText (he v List.mem_cons_self)
      rw [text_number, hn]
      exact n.isTrimmed_text
  | constant c => exact (Name.constant c).isTrimmed_text
  | negative e ih =>
      have htext : (negative e).text.toList = ['-'] ++ ([] ++ e.text.toList) := by
        simp [text_negative]
      rw [htext]
      exact (Text.isTrimmed_singleton rfl).append (ih he) []
  | call f e =>
      have htext : (call f e).text.toList = f.name.toList ++ ('(' :: e.text.toList ++ [')']) := by
        simp [text_call]
      rw [htext]
      exact (Name.function f).isTrimmed_text.append (Text.isTrimmed_singleton rfl) _
  | binary op a b =>
      have htext : (binary op a b).text.toList = ['('] ++
          ((a.text.toList ++ ' ' :: (op.symbol.toList ++ ' ' :: b.text.toList)) ++ [')']) := by
        simp [text_binary]
      rw [htext]
      exact (Text.isTrimmed_singleton rfl).append (Text.isTrimmed_singleton rfl) _

theorem underscore_not_mem_text {e : Expression} (he : e.Typable) : '_' ∉ e.text.toList := by
  induction e with
  | number v =>
      obtain ⟨n, hn, -⟩ := exists_numeral_plainText (he v List.mem_cons_self)
      rw [text_number, hn]
      exact n.underscore_not_mem_text
  | constant c => cases c <;> decide
  | negative e ih => simp [text_negative, ih he]
  | call f e ih =>
      have hname : '_' ∉ f.name.toList := (Name.function f).underscore_not_mem_text
      simp [text_call, ih he, hname]
  | binary op a b iha ihb =>
      obtain ⟨ha, hb⟩ := List.forall_mem_append.1 he
      have hsymbol : '_' ∉ op.symbol.toList := by cases op <;> decide
      simp [text_binary, iha ha, ihb hb, hsymbol]

theorem lex_text {e : Expression} (he : e.Typable) : Evaluation.lex e.text.toList = .ok e.typed := by
  have hend : ∀ c ∈ ([] : List Char).head?, isBreak c = true := nofun
  have hcut := cut_text_append he hend .nil
  rw [List.append_nil, List.append_nil] at hcut
  rw [Evaluation.lex_eq_ok_iff, (isTrimmed_text he).trim_eq]
  exact ⟨(isTrimmed_text he).ne_nil, hcut⟩

/-- Expressions that can be typed have different texts. -/
theorem text_injective {e e' : Expression} (he : e.Typable) (he' : e'.Typable) (h : e.text = e'.text) :
    e = e' := by
  have hlex := lex_text he
  rw [h, lex_text he'] at hlex
  exact (typed_injective (Except.ok.inj hlex)).symm

end Expression

namespace Evaluation

/-- The text of an expression is evaluated as what it means, unless it is too long or nested too deeply. -/
theorem ofText_text {e : Expression} (he : e.Typable) (limit : Nat) :
    (∃ length, ofText limit e.text = .error (.tooLong length limit)) ∨
    ofText limit e.text = .error (.malformed .nestedTooDeeply) ∨
    ∃ tokens polish, ofText limit e.text = e.reread.value.map (⟨tokens, polish, e.reread, ·⟩) := by
  have hunderscore : ¬hasDoubleUnderscore e.text.toList = true := by
    rw [hasDoubleUnderscore_iff]
    exact fun h => Expression.underscore_not_mem_text he (h.subset List.mem_cons_self)
  have hlex := Expression.lex_text he
  obtain ⟨d, htokens, htree⟩ := e.exists_derivation_typed
  rw [← htokens] at hlex
  rw [ofText, if_neg hunderscore]
  by_cases hlength : limit < e.text.toList.length
  · exact .inl ⟨e.text.toList.length, if_pos hlength⟩
  rw [if_neg hlength]
  rcases Token.toPolish_tokens_or d with hpolish | hpolish
  · refine .inr (.inr ⟨d.tokens, d.postorder, ?_⟩)
    have hparse : parse e.text.toList = .ok (d.tokens, d.postorder, e.reread) :=
      parse_eq_ok_iff.2 ⟨hlex, hpolish, by rw [d.ofPolish_postorder, htree]⟩
    rw [hparse]
  · refine .inr (.inl ?_)
    have hparse : parse e.text.toList = .error .nestedTooDeeply := by
      simp [parse, hlex, hpolish, bind, Except.bind]
    rw [hparse]

/-- The text of an evaluated expression, if it is neither too long nor nested too deeply, is evaluated as
what it means, and this is the same value with the same text if and only if no power has a base with a
sign. -/
theorem ofText_text_tree (settings settings' : Settings) (text : String) (r : Evaluation)
    (h : ofText settings.expressionLimit text = .ok r)
    (hlength : ∀ length limit, ofText settings'.expressionLimit r.tree.text ≠ .error (.tooLong length limit))
    (hnesting : ofText settings'.expressionLimit r.tree.text ≠ .error (.malformed .nestedTooDeeply)) :
    (∃ tokens polish, ofText settings'.expressionLimit r.tree.text =
      r.tree.reread.value.map (⟨tokens, polish, r.tree.reread, ·⟩)) ∧
    ((∃ r', ofText settings'.expressionLimit r.tree.text = .ok r' ∧ r'.value = r.value ∧
      r'.tree.text = r.tree.text) ↔ r.tree.PlainBases) := by
  obtain ⟨hvalue, htypable⟩ := typable_of_ofText h
  obtain ⟨length, hlong⟩ | hnested | ⟨tokens, polish, hread⟩ := ofText_text htypable settings'.expressionLimit
  · exact absurd hlong (hlength _ _)
  · exact absurd hnested hnesting
  refine ⟨⟨tokens, polish, hread⟩, ?_⟩
  rw [hread, ← Expression.reread_eq_self_iff]
  constructor
  · rintro ⟨r', hr', -, htext⟩
    obtain ⟨x, -, rfl⟩ := map_eq_ok_iff.1 hr'
    exact Expression.text_injective (Expression.typable_reread.2 htypable) htypable htext
  · intro hplain
    rw [hplain, hvalue]
    exact ⟨_, rfl, rfl, rfl⟩

open Expression in
/-- A minus before a group keeps its place. -/
theorem ofText_text_tree_of_grouped :
    ∃ r r', ofText 2000 "-(1+.5)*3" = .ok r ∧ r.tree.text = "(-(1 + 0.5) * 3)" ∧
      ofText 2000 "(-(1 + 0.5) * 3)" = .ok r' ∧ r'.value = r.value ∧ r'.tree.text = r.tree.text := by
  have hform : (ofText 2000 "-(1+.5)*3").toOption.map (·.tree) =
      some (binary .mul (negative (binary .add (number 1) (number 0.5))) (number 3)) := by
    decide +kernel
  have hread : (ofText 2000 "(-(1 + 0.5) * 3)").toOption.isSome = true := by
    decide +kernel
  cases h : ofText 2000 "-(1+.5)*3" with
  | error e =>
      rw [h] at hform
      cases hform
  | ok r =>
      rw [h] at hform
      have htree : r.tree = binary .mul (negative (binary .add (number 1) (number 0.5))) (number 3) :=
        Option.some.inj hform
      have htext : r.tree.text = "(-(1 + 0.5) * 3)" := by
        rw [htree]
        decide +kernel
      rw [← htext] at hread
      obtain ⟨-, hiff⟩ := ofText_text_tree {} {} "-(1+.5)*3" r h
        (fun _ _ hlong => by rw [hlong] at hread; cases hread)
        (fun hnested => by rw [hnested] at hread; cases hread)
      obtain ⟨r', hr', hvalue, hsame⟩ := hiff.2 (by simp [htree, PlainBases])
      rw [htext] at hr'
      exact ⟨r, r', rfl, htext, hr', hvalue, hsame⟩

/-- The sign of a base is read as a sign of the power. -/
theorem parse_text_of_signed_base :
    (parse "(-2)**2".toList).map (·.2.2.text) = .ok "(-2 ** 2)" ∧
    (parse "(-2 ** 2)".toList).map (·.2.2.text) = .ok "-(2 ** 2)" := by
  decide +kernel

end Evaluation

end DeskCalc
