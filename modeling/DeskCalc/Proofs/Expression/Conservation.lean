import DeskCalc.Proofs.Expression.Depth
import DeskCalc.Proofs.Expression.Outcome
import DeskCalc.Proofs.Text.Blank

/-!
What becomes of the tokens of an expression. The reverse Polish form has all of them but the parentheses, each as
often as it is typed, with plus and minus before an operand named as signs; and the tree has a node for each of
these but the plus signs. So no tree has more nodes than the text has characters, and a limit on the length of a
text is a limit on the calls that wait for each other when the tree is evaluated and written.
-/

namespace DeskCalc

/-! ### Signs -/

namespace Token

def isParenthesis : Token → Bool
  | opening | closing => true
  | number _ | constant _ | call _ | operator _ | sign _ => false

/-- Whether the token is an operand by itself. -/
def isOperand : Token → Bool
  | number _ | constant _ => true
  | call _ | operator _ | sign _ | opening | closing => false

/-- Whether an operand ends with the token. -/
def endsOperand : Token → Bool
  | number _ | constant _ | closing => true
  | call _ | operator _ | sign _ | opening => false

/-- The token in the place of an operand, where plus and minus are signs. -/
def asSign : Token → Token
  | operator .add => sign .plus
  | operator .sub => sign .minus
  | t => t

/-- The tokens with every plus and minus before an operand named as a sign. At first `ended` tells whether the tokens
come after an operand. -/
def withSigns : (ended : Bool) → List Token → List Token
  | _, [] => []
  | ended, t :: ts => (if ended then t else t.asSign) :: withSigns t.endsOperand ts

variable {ts : List Token}

theorem length_withSigns (ended : Bool) (ts : List Token) : (withSigns ended ts).length = ts.length := by
  induction ts generalizing ended with
  | nil => rfl
  | cons t ts ih => rw [withSigns, List.length_cons, List.length_cons, ih]

/-- Parentheses and operands stay as they are. -/
theorem filter_withSigns {p : Token → Bool} (hoperator : ∀ op, p (operator op) = false)
    (hsign : ∀ s, p (sign s) = false) (ended : Bool) (ts : List Token) :
    (withSigns ended ts).filter p = ts.filter p := by
  have hsame : ∀ t : Token, p t = true → t.asSign = t := by
    intro t ht
    cases t with
    | operator op => rw [hoperator] at ht; cases ht
    | number | constant | call | sign | opening | closing => rfl
  have hboth : ∀ t : Token, p t.asSign = p t := by
    intro t
    cases t with
    | operator op => cases op <;> simp [asSign, hoperator, hsign]
    | number | constant | call | sign | opening | closing => rfl
  induction ts generalizing ended with
  | nil => rfl
  | cons t ts ih =>
      cases ended with
      | true => rw [withSigns, if_pos rfl, List.filter_cons, List.filter_cons, ih]
      | false =>
          rw [withSigns, if_neg Bool.false_ne_true, List.filter_cons, List.filter_cons, ih, hboth]
          split
          next ht => rw [hsame t ht]
          next => rfl

/-- Whether the last of the tokens ends an operand. -/
def EndsOperand (ts : List Token) : Prop := ∃ us t, ts = us ++ [t] ∧ t.endsOperand = true

theorem EndsOperand.append (h : EndsOperand ts) (us : List Token) : EndsOperand (us ++ ts) := by
  obtain ⟨vs, t, rfl, ht⟩ := h
  exact ⟨us ++ vs, t, (List.append_assoc us vs [t]).symm, ht⟩

/-- What comes after an operand is named apart from it. -/
theorem EndsOperand.withSigns_append (h : EndsOperand ts) (ended : Bool) (us : List Token) :
    withSigns ended (ts ++ us) = withSigns ended ts ++ withSigns true us := by
  obtain ⟨vs, t, rfl, ht⟩ := h
  induction vs generalizing ended with
  | nil =>
      rw [List.nil_append, List.singleton_append, withSigns, withSigns, withSigns, ht]
      rfl
  | cons v vs ih => exact congrArg (_ :: ·) (ih v.endsOperand)

end Token

/-! ### Derivations -/

namespace Derivation

open Token

variable {p : Phrase}

theorem endsOperand_tokens (d : Derivation p) : EndsOperand d.tokens := by
  induction d with
  | number v => exact ⟨[], .number v, rfl, rfl⟩
  | constant c => exact ⟨[], .constant c, rfl, rfl⟩
  | call f e => exact ⟨.call f :: .opening :: e.tokens, .closing, rfl, rfl⟩
  | group e => exact ⟨.opening :: e.tokens, .closing, rfl, rfl⟩
  | base a ih | plain q ih | factor u ih | single t ih => exact ih
  | signed s u ih => exact ih.append [.operator s.operator]
  | raise a e iha ihb => exact (ihb.append [.operator .pow]).append a.tokens
  | multiply l op h r iha ihb | add l op h r iha ihb => exact (ihb.append [.operator op]).append l.tokens

/-- The tokens of the sentence but for the parentheses, with the signs named. -/
def named (d : Derivation p) : List Token := (withSigns false d.tokens).filter (!·.isParenthesis)

theorem named_group (e : Derivation .expr) : (group e).named = e.named := by
  change (opening :: withSigns false (e.tokens ++ [closing])).filter _ = _
  rw [e.endsOperand_tokens.withSigns_append, List.filter_cons_of_neg (by decide), List.filter_append]
  exact List.append_nil _

theorem named_call (f : Elementary) (e : Derivation .expr) : (call f e).named = .call f :: e.named :=
  congrArg (Token.call f :: ·) (named_group e)

theorem named_signed (s : Sign) (u : Derivation .unary) : (signed s u).named = .sign s :: u.named := by
  cases s <;> rfl

/-- After an operand an operator is no sign. -/
theorem filter_withSigns_infix {q : Phrase} (l : Derivation p) (op : BinaryOperator) (r : Derivation q) :
    (withSigns false (l.tokens ++ .operator op :: r.tokens)).filter (!·.isParenthesis) =
      l.named ++ .operator op :: r.named := by
  rw [l.endsOperand_tokens.withSigns_append, List.filter_append]
  rfl

theorem named_raise (a : Derivation .atom) (e : Derivation .unary) :
    (raise a e).named = a.named ++ .operator .pow :: e.named :=
  filter_withSigns_infix a .pow e

theorem named_multiply (l : Derivation .term) (op : BinaryOperator) (h : op.isMultiplicative = true)
    (r : Derivation .unary) : (multiply l op h r).named = l.named ++ .operator op :: r.named :=
  filter_withSigns_infix l op r

theorem named_add (l : Derivation .expr) (op : BinaryOperator) (h : op.isAdditive = true)
    (r : Derivation .term) : (add l op h r).named = l.named ++ .operator op :: r.named :=
  filter_withSigns_infix l op r

theorem perm_infix {us us' vs vs' : List Token} (op : BinaryOperator) (hus : us.Perm us') (hvs : vs.Perm vs') :
    (us ++ vs ++ [operator op]).Perm (us' ++ operator op :: vs') := by
  rw [List.append_assoc]
  exact hus.append ((List.perm_append_singleton _ _).trans (hvs.cons _))

/-- The postorder listing has the same tokens in another order. -/
theorem postorder_perm (d : Derivation p) : d.postorder.Perm d.named := by
  induction d with
  | number | constant => exact .refl _
  | call f e ih =>
      rw [named_call]
      exact (List.perm_append_singleton _ _).trans (ih.cons _)
  | group e ih =>
      rw [named_group]
      exact ih
  | base a ih | plain q ih | factor u ih | single t ih => exact ih
  | signed s u ih =>
      rw [named_signed]
      exact (List.perm_append_singleton _ _).trans (ih.cons _)
  | raise a e iha ihb =>
      rw [named_raise]
      exact perm_infix .pow iha ihb
  | multiply l op h r iha ihb =>
      rw [named_multiply]
      exact perm_infix op iha ihb
  | add l op h r iha ihb =>
      rw [named_add]
      exact perm_infix op iha ihb

/-- Among themselves the operands keep their order. -/
theorem filter_isOperand_postorder (d : Derivation p) :
    d.postorder.filter isOperand = d.tokens.filter isOperand := by
  induction d with
  | number | constant => rfl
  | call f e ih | group e ih | signed s u ih => simp [postorder, tokens, isOperand, ih]
  | base a ih | plain q ih | factor u ih | single t ih => exact ih
  | raise a e iha ihb | multiply l op h r iha ihb | add l op h r iha ihb =>
      simp [postorder, tokens, isOperand, iha, ihb]

end Derivation

/-! ### Conversions -/

namespace Token

variable {tokens polish : List Token}

/-- No token is lost on the way to the reverse Polish form, and none is written twice. -/
theorem perm_of_toPolish (h : toPolish tokens = .ok polish) :
    polish.Perm ((withSigns false tokens).filter (!·.isParenthesis)) := by
  obtain ⟨d, rfl, rfl⟩ := exists_derivation_of_toPolish h
  exact d.postorder_perm

theorem filter_isOperand_of_toPolish (h : toPolish tokens = .ok polish) :
    polish.filter isOperand = tokens.filter isOperand := by
  obtain ⟨d, rfl, rfl⟩ := exists_derivation_of_toPolish h
  exact d.filter_isOperand_postorder

theorem length_of_toPolish (h : toPolish tokens = .ok polish) :
    polish.length + tokens.countP isParenthesis = tokens.length := by
  have hparentheses : (withSigns false tokens).filter isParenthesis = tokens.filter isParenthesis :=
    filter_withSigns (fun _ => rfl) (fun _ => rfl) false tokens
  have hlength := List.length_eq_length_filter_add (l := withSigns false tokens) isParenthesis
  rw [length_withSigns, hparentheses, ← (perm_of_toPolish h).length_eq, ← List.countP_eq_length_filter] at hlength
  omega

theorem count_plus_of_toPolish (h : toPolish tokens = .ok polish) :
    polish.count (.sign .plus) = (withSigns false tokens).count (.sign .plus) := by
  rw [(perm_of_toPolish h).count_eq]
  exact List.count_filter rfl

end Token

/-- A reverse Polish form has the plus signs beside the nodes of the tree. -/
theorem Expression.size_of_ofPolish {polish : List Token} {tree : Expression} (h : ofPolish polish = .ok tree) :
    tree.size + polish.count (.sign .plus) = polish.length := by
  have hlength := List.length_eq_length_filter_add (l := polish) (· ≠ .sign .plus)
  rw [filter_eq_postorder_of_ofPolish h, length_postorder] at hlength
  simp only [ne_eq, decide_not, Bool.not_not] at hlength
  rw [hlength, List.count_eq_length_filter]
  rfl

/-! ### Texts -/

/-- Every token takes a character. -/
theorem Cut.length_le {cs : List Char} {ts : List Token} (h : Cut cs ts) : ts.length ≤ cs.length := by
  induction h with
  | nil => exact Nat.le_refl 0
  | blank _ _ ih => exact Nat.le_succ_of_le ih
  | lexeme hw _ _ ih =>
      obtain ⟨c, cs, rfl, -⟩ := hw.exists_cons
      simp only [List.length_append, List.length_cons]
      omega

theorem Text.length_trim_le (cs : List Char) : (trim cs).length ≤ cs.length := by
  obtain ⟨before, after, hcs, -⟩ := exists_of_trim cs
  have hlength := congrArg List.length hcs
  simp only [List.length_append] at hlength
  omega

namespace Evaluation

/-- Whether the evaluation of a text gets to a tree: the text is admissible and has the three forms. -/
structure Reaches (limit : Nat) (text : String) (tokens polish : List Token) (tree : Expression) : Prop where
  underscore : ¬['_', '_'] <:+: text.toList
  length_le : text.toList.length ≤ limit
  parse_eq : parse text.toList = .ok (tokens, polish, tree)

namespace Reaches

variable {limit : Nat} {text : String} {tokens polish : List Token} {tree : Expression}
  (h : Reaches limit text tokens polish tree)
include h

/-- The rest of the evaluation is that of the tree. -/
theorem ofText_eq : ofText limit text = tree.value.map (⟨tokens, polish, tree, ·⟩) := by
  rw [ofText, if_neg (mt hasDoubleUnderscore_iff.1 h.underscore), if_neg (Nat.not_lt.2 h.length_le), h.parse_eq]

theorem size_le_length : tree.size ≤ text.toList.length := by
  obtain ⟨hlex, hpolish, htree⟩ := parse_eq_ok_iff.1 h.parse_eq
  have hsize := Expression.size_of_ofPolish htree
  have hlength := Token.length_of_toPolish hpolish
  have htokens := (lex_eq_ok_iff.1 hlex).2.length_le
  have htrim := Text.length_trim_le text.toList
  omega

end Reaches

/-- A text that gets to a tree has as many tokens as the tree has nodes, besides parentheses and plus signs, and at
least as many characters. So evaluating the tree and writing it takes no more room than the limit allows. The reverse
Polish form has the tokens but for the parentheses, each as often as it is typed, the signs named and the operands in
their order. -/
theorem tokens_conserved (settings : Settings) (text : String) {tokens polish : List Token} {tree : Expression}
    (h : Reaches settings.expressionLimit text tokens polish tree) :
    (Token.lex (Text.trim text.toList) = .ok tokens ∧
      ofText settings.expressionLimit text = tree.value.map (⟨tokens, polish, tree, ·⟩)) ∧
    (tree.size + tokens.countP Token.isParenthesis + (Token.withSigns false tokens).count (.sign .plus) =
        tokens.length ∧
      tree.size ≤ text.toList.length) ∧
    (tree.depth ≤ settings.expressionLimit ∧
      tree.valueWithin settings.expressionLimit = some tree.value ∧
      tree.textWithin settings.expressionLimit = some tree.text) ∧
    polish.Perm ((Token.withSigns false tokens).filter (!·.isParenthesis)) ∧
    polish.filter Token.isOperand = tokens.filter Token.isOperand := by
  obtain ⟨hlex, hpolish, htree⟩ := parse_eq_ok_iff.1 h.parse_eq
  have hdepth : tree.depth ≤ settings.expressionLimit :=
    calc tree.depth ≤ tree.size := tree.depth_le_size
      _ ≤ text.toList.length := h.size_le_length
      _ ≤ settings.expressionLimit := h.length_le
  refine ⟨⟨Token.lex_eq_ok_iff.2 (lex_eq_ok_iff.1 hlex).2, h.ofText_eq⟩, ⟨?_, h.size_le_length⟩,
    ⟨hdepth, Expression.valueWithin_of_depth_le hdepth, ?_⟩, Token.perm_of_toPolish hpolish,
    Token.filter_isOperand_of_toPolish hpolish⟩
  · have hsize := Expression.size_of_ofPolish htree
    have hlength := Token.length_of_toPolish hpolish
    rw [Token.count_plus_of_toPolish hpolish] at hsize
    omega
  · rw [Expression.textWithin_eq, if_pos hdepth]

/-- Two signs and two pairs of parentheses, and a tree of four levels. -/
theorem tokens_conserved_of_signs :
    ∃ tokens polish tree, Reaches 20 " +pi - (-e)*sin(pi)" tokens polish tree ∧ tokens.length = 12 ∧
      tokens.countP Token.isParenthesis = 4 ∧ (Token.withSigns false tokens).count (.sign .plus) = 1 ∧
      tree.size = 7 ∧ tree.textWithin 20 = some "(pi - (-e * sin(pi)))" ∧ tree.textWithin 3 = none ∧
      polish.filter Token.isOperand = [.constant .pi, .constant .e, .constant .pi] := by
  have hforms : (parse " +pi - (-e)*sin(pi)".toList).toOption.map (fun forms => (forms.1, forms.2.2)) =
      some ([.operator .add, .constant .pi, .operator .sub, .opening, .operator .sub, .constant .e, .closing,
          .operator .mul, .call (.trig .sin), .opening, .constant .pi, .closing],
        .binary .sub (.constant .pi)
          (.binary .mul (.negative (.constant .e)) (.call (.trig .sin) (.constant .pi)))) := by
    decide +kernel
  obtain ⟨⟨tokens, polish, tree⟩, hparse, heq⟩ := Option.map_eq_some_iff.1 hforms
  obtain ⟨rfl, rfl⟩ := Prod.mk.inj heq
  have hreaches : Reaches 20 " +pi - (-e)*sin(pi)" _ polish _ :=
    ⟨by rw [← hasDoubleUnderscore_iff]; decide, by decide, toOption_eq_some_iff.1 hparse⟩
  obtain ⟨-, ⟨hcount, -⟩, ⟨-, -, htext⟩, -, hoperands⟩ :=
    tokens_conserved { expressionLimit := 20 } " +pi - (-e)*sin(pi)" hreaches
  refine ⟨_, polish, _, hreaches, rfl, by decide, by decide, ?_, htext.trans (congrArg some (by decide)), ?_,
    hoperands.trans (by decide)⟩
  · exact Nat.add_right_cancel (m := 5) hcount
  · rw [Expression.textWithin_eq]
    exact if_neg (by decide)

end Evaluation

end DeskCalc
