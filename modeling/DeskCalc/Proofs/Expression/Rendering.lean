import DeskCalc.Proofs.Expression.Derivation
import Mathlib

/-!
The tokens of the text of an expression, and the expression that they mean. A minus stands bare before its
operand, so one that stands before the base of a power is read as a minus before the power. Everything else
is in parentheses and is read as it was. The tokens tell different expressions apart.
-/

namespace DeskCalc.Expression

/-- The tokens of the text. -/
def typed : Expression → List Token
  | number v => [.number v]
  | constant c => [.constant c]
  | negative e => .operator .sub :: e.typed
  | binary op a b => .opening :: (a.typed ++ .operator op :: (b.typed ++ [.closing]))
  | call f e => .call f :: .opening :: (e.typed ++ [.closing])

/-- What the text means: the signs of the base of a power move in front of the power. -/
def reread : Expression → Expression
  | number v => number v
  | constant c => constant c
  | negative e => negative e.reread
  | binary .pow (negative a) b => negative (binary .pow a b).reread
  | binary op a b => binary op a.reread b.reread
  | call f e => call f e.reread

/-- No power has a base with a sign. -/
def PlainBases : Expression → Prop
  | number _ => True
  | constant _ => True
  | negative e => e.PlainBases
  | binary op a b => (op = .pow → ∀ e, a ≠ negative e) ∧ a.PlainBases ∧ b.PlainBases
  | call _ e => e.PlainBases

/-- The numbers that stand in an expression, from left to right. -/
def literals : Expression → List Float
  | number v => [v]
  | constant _ => []
  | negative e => e.literals
  | binary _ a b => a.literals ++ b.literals
  | call _ e => e.literals

/-! ### Reading again -/

theorem reread_binary {op : BinaryOperator} {a : Expression} (h : op = .pow → ∀ e, a ≠ negative e)
    (b : Expression) : (binary op a b).reread = binary op a.reread b.reread := by
  rw [reread]
  exact fun e hop he => h hop e he

theorem reread_pow_negative (a b : Expression) :
    (binary .pow (negative a) b).reread = negative (binary .pow a b).reread := by
  rw [reread]

/-- Only a sign before the base of a power is read otherwise. -/
theorem reread_eq_self_iff {e : Expression} : e.reread = e ↔ e.PlainBases := by
  induction e using reread.induct with
  | case1 v => simp [reread, PlainBases]
  | case2 c => simp [reread, PlainBases]
  | case3 e ih => simp [reread, PlainBases, ih]
  | case4 a b ih => simp [reread, PlainBases]
  | case5 op a b h iha ihb =>
      have hbase : op = .pow → ∀ e, a ≠ negative e := fun hop e he => h e hop he
      rw [reread_binary hbase, PlainBases, ← iha, ← ihb, binary.injEq]
      exact ⟨fun heq => ⟨hbase, heq.2⟩, fun hplain => ⟨rfl, hplain.2⟩⟩
  | case6 f e ih => simp [reread, PlainBases, ih]

theorem literals_reread (e : Expression) : e.reread.literals = e.literals := by
  induction e using reread.induct with
  | case1 v => simp [reread]
  | case2 c => simp [reread]
  | case3 e ih => simp [reread, literals, ih]
  | case4 a b ih => simpa [reread, literals] using ih
  | case5 op a b h iha ihb =>
      rw [reread_binary fun hop e he => h e hop he, literals, iha, ihb, literals]
  | case6 f e ih => simp [reread, literals, ih]

/-! ### The derivation of the tokens -/

/-- The phrases that the tokens of `e` are, alone and with an exponent after them. -/
structure Derived (e : Expression) : Prop where
  unary : ∃ u : Derivation .unary, u.tokens = e.typed ∧ u.tree = e.reread
  power : ∀ b (v : Derivation .unary), v.tokens = b.typed → v.tree = b.reread →
    ∃ u : Derivation .unary, u.tokens = e.typed ++ .operator .pow :: b.typed ∧
      u.tree = (binary .pow e b).reread

theorem derived_of_atom {e : Expression} (a : Derivation .atom) (htokens : a.tokens = e.typed)
    (htree : a.tree = e.reread) (he : ∀ x, e ≠ negative x) : Derived e where
  unary := ⟨.plain (.base a), htokens, htree⟩
  power b v hv hb := ⟨.plain (.raise a v), by simp [Derivation.tokens, htokens, hv],
    by rw [reread_binary fun _ => he]; simp [Derivation.tree, htree, hb]⟩

/-- Two operands with an operator between them, before the parentheses. -/
theorem exists_derivation_binary {a b : Expression} (ha : Derived a) (hb : Derived b) (op : BinaryOperator) :
    ∃ d : Derivation .expr, d.tokens = a.typed ++ .operator op :: b.typed ∧ d.tree = (binary op a b).reread := by
  obtain ⟨u, hua, hta⟩ := ha.unary
  obtain ⟨v, hvb, htb⟩ := hb.unary
  by_cases hadd : op.isAdditive = true
  · refine ⟨.add (.single (.factor u)) op hadd (.factor v), ?_, ?_⟩
    · simp [Derivation.tokens, hua, hvb]
    · rw [reread_binary fun hop => by simp [hop, BinaryOperator.isAdditive] at hadd]
      simp [Derivation.tree, hta, htb]
  by_cases hmul : op.isMultiplicative = true
  · refine ⟨.single (.multiply (.factor u) op hmul v), ?_, ?_⟩
    · simp [Derivation.tokens, hua, hvb]
    · rw [reread_binary fun hop => by simp [hop, BinaryOperator.isMultiplicative] at hmul]
      simp [Derivation.tree, hta, htb]
  · obtain rfl := BinaryOperator.eq_pow hadd hmul
    obtain ⟨w, hw, htw⟩ := ha.power b v hvb htb
    exact ⟨.single (.factor w), hw, htw⟩

theorem derived (e : Expression) : Derived e := by
  induction e with
  | number v => exact derived_of_atom (.number v) rfl (by rw [reread]; rfl) (by simp)
  | constant c => exact derived_of_atom (.constant c) rfl (by rw [reread]; rfl) (by simp)
  | negative e ih =>
      obtain ⟨u, htokens, htree⟩ := ih.unary
      refine ⟨⟨.signed .minus u, ?_, ?_⟩, fun b v hv hb => ?_⟩
      · rw [Derivation.tokens, htokens]; rfl
      · rw [Derivation.tree, htree, reread]
      · obtain ⟨u', htokens', htree'⟩ := ih.power b v hv hb
        refine ⟨.signed .minus u', ?_, ?_⟩
        · rw [Derivation.tokens, htokens']; rfl
        · rw [Derivation.tree, htree', reread_pow_negative]
  | call f e ih =>
      obtain ⟨u, htokens, htree⟩ := ih.unary
      refine derived_of_atom (.call f (.single (.factor u))) ?_ ?_ (by simp)
      · simp [Derivation.tokens, htokens, typed]
      · rw [reread]; simp [Derivation.tree, htree]
  | binary op a b iha ihb =>
      obtain ⟨inner, htokens, htree⟩ := exists_derivation_binary iha ihb op
      refine derived_of_atom (.group inner) ?_ ?_ (by simp)
      · simp [Derivation.tokens, htokens, typed]
      · simp [Derivation.tree, htree]

/-- The tokens of the text of an expression are a sentence, and they mean what is read again. -/
theorem exists_derivation_typed (e : Expression) :
    ∃ d : Derivation .expr, d.tokens = e.typed ∧ d.tree = e.reread := by
  obtain ⟨u, htokens, htree⟩ := e.derived.unary
  exact ⟨.single (.factor u), htokens, htree⟩

/-- Where one expression is written, no other one is. -/
theorem typed_append_inj {e e' : Expression} {rest rest' : List Token}
    (h : e.typed ++ rest = e'.typed ++ rest') : e = e' ∧ rest = rest' := by
  induction e generalizing e' rest rest' with
  | number v =>
      cases e' with
      | number w => simpa [typed] using h
      | _ => simp [typed] at h
  | constant c =>
      cases e' with
      | constant c' => simpa [typed] using h
      | _ => simp [typed] at h
  | negative e ih =>
      cases e' with
      | negative e' =>
          obtain ⟨rfl, hrest⟩ := ih (List.cons.inj h).2
          exact ⟨rfl, hrest⟩
      | _ => simp [typed] at h
  | call f e ih =>
      cases e' with
      | call f' e' =>
          simp only [typed, List.cons_append, List.append_assoc, List.cons.injEq, Token.call.injEq,
            true_and] at h
          obtain ⟨rfl, h⟩ := h
          obtain ⟨rfl, hrest⟩ := ih h
          exact ⟨rfl, (List.cons.inj hrest).2⟩
      | _ => simp [typed] at h
  | binary op a b iha ihb =>
      cases e' with
      | binary op' a' b' =>
          simp only [typed, List.cons_append, List.append_assoc, List.cons.injEq, true_and] at h
          obtain ⟨rfl, hafter⟩ := iha h
          obtain ⟨hop, hright⟩ := List.cons.inj hafter
          obtain rfl := Token.operator.inj hop
          obtain ⟨rfl, hrest⟩ := ihb hright
          exact ⟨rfl, (List.cons.inj hrest).2⟩
      | _ => simp [typed] at h

theorem typed_injective : Function.Injective typed := by
  intro e e' h
  have happend : e.typed ++ [] = e'.typed ++ [] := by rw [h]
  exact (typed_append_inj happend).1

end DeskCalc.Expression
