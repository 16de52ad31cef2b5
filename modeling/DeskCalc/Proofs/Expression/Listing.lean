import DeskCalc.Proofs.Expression.Derivation
import DeskCalc.Proofs.Stages

/-!
Reverse Polish forms and the trees that they list. The trees on the stack, read from the bottom, list the tokens
that have been read. A plus sign leaves the stack as it is and asks only for an operand, and after the first
operand there always is one: so plus signs are left out of the listing wherever they stand, but at the start. All
else in a form is the postorder listing of its tree, from which the tree is found again.
-/

namespace DeskCalc

namespace Expression

/-- The postorder listing: every operator, minus sign and function after its operands. -/
def postorder : Expression → List Token
  | number v => [.number v]
  | constant c => [.constant c]
  | negative e => e.postorder ++ [.sign .minus]
  | binary op a b => a.postorder ++ b.postorder ++ [.operator op]
  | call f e => e.postorder ++ [.call f]

/-- What the trees on a stack list, from the bottom of the stack on. -/
def listing (stack : List Expression) : List Token := stack.reverse.flatMap postorder

theorem listing_cons (e : Expression) (stack : List Expression) :
    listing (e :: stack) = listing stack ++ e.postorder := by
  rw [listing, List.reverse_cons, List.flatMap_append, List.flatMap_singleton, listing]

/-- A listing has no parentheses and no plus sign. -/
theorem ne_of_mem_postorder {e : Expression} {t : Token} (h : t ∈ e.postorder) :
    t ≠ .opening ∧ t ≠ .closing ∧ t ≠ .sign .plus := by
  induction e with
  | number v | constant c =>
      rw [List.mem_singleton.1 h]
      simp
  | negative e ih | call f e ih =>
      rcases List.mem_append.1 h with h | h
      · exact ih h
      · rw [List.mem_singleton.1 h]
        simp
  | binary op a b iha ihb =>
      rcases List.mem_append.1 h with h | h
      · exact (List.mem_append.1 h).elim iha ihb
      · rw [List.mem_singleton.1 h]
        simp

/-- Reading a listing leaves the tree on top of what was on the stack. -/
theorem foldlM_push_postorder (e : Expression) (stack : List Expression) :
    e.postorder.foldlM push stack = .ok (e :: stack) := by
  induction e generalizing stack with
  | number v => rfl
  | constant c => rfl
  | negative e ih | call f e ih =>
      rw [postorder, List.foldlM_append, ih]
      rfl
  | binary op a b iha ihb => exact Derivation.foldlM_push_operator op iha ihb stack

theorem ofPolish_eq_ok {tokens : List Token} {e : Expression} :
    ofPolish tokens = .ok e ↔ tokens.foldlM push [] = .ok [e] := by
  unfold ofPolish
  split
  next fault h => simp [h]
  next e' h => simp [h]
  next stack hne h =>
    rw [h]
    refine iff_of_false nofun fun heq => ?_
    exact hne e (Except.ok.inj heq)

theorem ofPolish_postorder (e : Expression) : ofPolish e.postorder = .ok e :=
  ofPolish_eq_ok.2 (e.foldlM_push_postorder [])

section Stack

variable {stack stack' : List Expression} {t : Token} {tokens : List Token}

theorem ne_nil_of_push (h : push stack t = .ok stack') : stack' ≠ [] := by
  cases t with
  | number v | constant c =>
      cases h
      exact List.cons_ne_nil _ _
  | call f =>
      cases stack with
      | nil => cases h
      | cons e rest =>
          cases h
          exact List.cons_ne_nil _ _
  | operator op =>
      match stack, h with
      | _ :: _ :: _, rfl => exact List.cons_ne_nil _ _
  | sign s =>
      cases stack with
      | nil => cases s <;> cases h
      | cons e rest =>
          cases s <;> cases h <;> exact List.cons_ne_nil _ _
  | opening | closing => cases h

theorem push_plus (hne : stack ≠ []) : push stack (.sign .plus) = .ok stack := by
  cases stack with
  | nil => exact absurd rfl hne
  | cons e rest => rfl

/-- One token, a plus sign apart, is listed after what the stack listed before it. -/
theorem listing_push (ht : t ≠ .sign .plus) (h : push stack t = .ok stack') :
    listing stack' = listing stack ++ [t] := by
  cases t with
  | number v | constant c =>
      cases h
      exact listing_cons _ _
  | call f =>
      cases stack with
      | nil => cases h
      | cons e rest =>
          cases h
          rw [listing_cons, listing_cons, postorder, List.append_assoc]
  | operator op =>
      match stack, h with
      | b :: a :: rest, rfl => simp only [listing_cons, postorder, List.append_assoc]
  | sign s =>
      cases s with
      | plus => exact absurd rfl ht
      | minus =>
          cases stack with
          | nil => cases h
          | cons e rest =>
              cases h
              rw [listing_cons, listing_cons, postorder, List.append_assoc]
  | opening | closing => cases h

/-- So are the tokens of a whole form. -/
theorem listing_foldlM_push (hplus : .sign .plus ∉ tokens) (h : tokens.foldlM push stack = .ok stack') :
    listing stack' = listing stack ++ tokens := by
  induction tokens generalizing stack with
  | nil =>
      cases h
      rw [List.append_nil]
  | cons t tokens ih =>
      rw [List.foldlM_cons] at h
      obtain ⟨next, hnext, h⟩ := bind_eq_ok_iff.1 h
      have ht : t ≠ .sign .plus := fun ht => hplus (ht ▸ List.mem_cons_self)
      rw [ih (fun hmem => hplus (List.mem_cons_of_mem t hmem)) h, listing_push ht hnext, List.append_assoc,
        List.singleton_append]

/-- Once there is an operand the plus signs do nothing. -/
theorem foldlM_push_filter (hne : stack ≠ []) :
    (tokens.filter (· ≠ .sign .plus)).foldlM push stack = tokens.foldlM push stack := by
  induction tokens generalizing stack with
  | nil => rfl
  | cons t tokens ih =>
      by_cases ht : t = .sign .plus
      · rw [List.filter_cons_of_neg (by simpa using ht), ih hne, List.foldlM_cons, ht, push_plus hne]
        rfl
      · rw [List.filter_cons_of_pos (by simpa using ht), List.foldlM_cons, List.foldlM_cons]
        cases hpush : push stack t with
        | error fault => rfl
        | ok next => exact ih (ne_nil_of_push hpush)

theorem ofPolish_filter (hhead : tokens.head? ≠ some (.sign .plus)) :
    ofPolish (tokens.filter (· ≠ .sign .plus)) = ofPolish tokens := by
  cases tokens with
  | nil => rfl
  | cons t tokens =>
      have ht : t ≠ .sign .plus := fun ht => hhead (congrArg some ht)
      have hfold : ((t :: tokens).filter (· ≠ .sign .plus)).foldlM push [] = (t :: tokens).foldlM push [] := by
        rw [List.filter_cons_of_pos (by simpa using ht), List.foldlM_cons, List.foldlM_cons]
        cases hpush : push [] t with
        | error fault => rfl
        | ok next => exact foldlM_push_filter (ne_nil_of_push hpush)
      rw [ofPolish, ofPolish, hfold]

/-- A form starts with an operand. -/
theorem head?_ne_of_ofPolish {e : Expression} (h : ofPolish tokens = .ok e) :
    tokens.head? ≠ some (.sign .plus) := by
  intro hhead
  obtain ⟨rest, rfl⟩ := List.head?_eq_some_iff.1 hhead
  cases h

theorem filter_eq_postorder_of_ofPolish {e : Expression} (h : ofPolish tokens = .ok e) :
    tokens.filter (· ≠ .sign .plus) = e.postorder := by
  have hfold := ofPolish_eq_ok.1 ((ofPolish_filter (head?_ne_of_ofPolish h)).trans h)
  have hlisting := listing_foldlM_push (by simp) hfold
  rwa [listing_cons, listing, List.reverse_nil, List.flatMap_nil, List.nil_append, List.nil_append,
    eq_comm] at hlisting

end Stack

end Expression

/-- Whether tokens are a reverse Polish form of a tree: no parentheses, an operand first, and after the plus signs
are taken out the postorder listing of the tree. -/
structure Token.Lists (tokens : List Token) (e : Expression) : Prop where
  opening_not_mem : .opening ∉ tokens
  closing_not_mem : .closing ∉ tokens
  head?_ne : tokens.head? ≠ some (.sign .plus)
  filter_eq : tokens.filter (· ≠ .sign .plus) = e.postorder

namespace Expression

theorem lists_of_ofPolish {tokens : List Token} {e : Expression} (h : ofPolish tokens = .ok e) :
    Token.Lists tokens e := by
  have hfilter := filter_eq_postorder_of_ofPolish h
  have hlisted : ∀ t ∈ tokens, t ≠ .sign .plus → t ≠ .opening ∧ t ≠ .closing := by
    intro t hmem ht
    have hpostorder : t ∈ e.postorder := hfilter ▸ List.mem_filter.2 ⟨hmem, by simpa using ht⟩
    obtain ⟨hopening, hclosing, -⟩ := ne_of_mem_postorder hpostorder
    exact ⟨hopening, hclosing⟩
  refine ⟨?_, ?_, head?_ne_of_ofPolish h, hfilter⟩
  · intro hmem
    exact (hlisted .opening hmem nofun).1 rfl
  · intro hmem
    exact (hlisted .closing hmem nofun).2 rfl

theorem ofPolish_of_lists {tokens : List Token} {e : Expression} (h : Token.Lists tokens e) :
    ofPolish tokens = .ok e := by
  rw [← ofPolish_filter h.head?_ne, h.filter_eq, ofPolish_postorder]

/-- The tree of a token list is the one that the list is a form of, and everything else is refused. Every tree is
found again from its listing, so that no two trees have the same. -/
theorem ofPolish_eq_ok_iff_lists :
    (∀ tokens e, ofPolish tokens = .ok e ↔ Token.Lists tokens e) ∧
    (∀ e, ofPolish e.postorder = .ok e) ∧
    Function.Injective postorder ∧
    ∀ tokens, (∃ fault, ofPolish tokens = .error fault) ↔ ¬∃ e, Token.Lists tokens e := by
  refine ⟨fun tokens e => ⟨lists_of_ofPolish, ofPolish_of_lists⟩, ofPolish_postorder, ?_, ?_⟩
  · intro a b heq
    have hsame := a.ofPolish_postorder
    rw [heq, b.ofPolish_postorder] at hsame
    exact (Except.ok.inj hsame).symm
  · intro tokens
    cases h : ofPolish tokens with
    | error fault =>
        refine iff_of_true ⟨fault, rfl⟩ ?_
        rintro ⟨e, he⟩
        rw [ofPolish_of_lists he] at h
        cases h
    | ok e => exact iff_of_false nofun fun hnone => hnone ⟨e, lists_of_ofPolish h⟩

/-- A plus sign may stand after any operand but not before the first one, and an operand may not be left over. -/
example :
    ofPolish [.constant .pi, .sign .plus, .sign .minus, .sign .plus] = .ok (.negative (.constant .pi)) ∧
    ofPolish [.sign .plus, .constant .pi] = .error .plusWithoutOperand ∧
    ofPolish [.constant .pi, .constant .e] = .error .unbalanced := ⟨rfl, rfl, rfl⟩

end Expression

end DeskCalc
