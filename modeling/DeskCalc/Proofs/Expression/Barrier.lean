import DeskCalc.Proofs.Expression.LongestMatch

/-!
Blanks between two texts. No lexeme goes on with a blank, so what stands after one has no part in how the text
before it is cut: the tokens of the whole are those of the two parts in order, and a fault before the blank is the
fault of the whole. The lexer stops at the first place that is reached by lexemes and blanks and starts neither, so
a blank at a place that is reached anyway changes nothing.
-/

namespace DeskCalc

/-- A lexeme at the start of a text ends before any blank or parenthesis after its first character. -/
theorem Lexeme.exists_of_append_break {u v v' after : List Char} {c : Char} {t? : Option Token}
    (hv : Lexeme v t?) (hu : u ≠ []) (hc : isBreak c = true) (h : u ++ c :: after = v ++ v') :
    ∃ left, u = v ++ left ∧ v' = left ++ c :: after := by
  rcases List.append_eq_append_iff.1 h with ⟨more, rfl, hafter⟩ | ⟨left, hleft, hv'⟩
  · cases more with
    | nil => exact ⟨[], by simp, hafter.symm⟩
    | cons x more =>
        obtain ⟨rfl, -⟩ := List.cons.inj hafter
        obtain ⟨y, ys, rfl⟩ := List.exists_cons_of_ne_nil hu
        have hinside := hv.not_isBreak_of_mem_tail (c := c) (by simp)
        rw [hc] at hinside
        cases hinside
  · exact ⟨left, hleft, hv'⟩

/-- A longest lexeme stays the longest when a blank or a parenthesis ends the text after it. -/
theorem IsLongest.append_break {w rest : List Char} {c : Char} (h : IsLongest w rest) (hw : w ≠ [])
    (hc : isBreak c = true) (after : List Char) : IsLongest w (rest ++ c :: after) := by
  intro v v' t? hv hsame
  rw [← List.append_assoc] at hsame
  obtain ⟨left, hleft, -⟩ := hv.exists_of_append_break (List.append_ne_nil_of_left_ne_nil hw rest) hc hsame
  exact h v left t? hv hleft

/-- A longest lexeme stays the longest when the text after it is cut short. -/
theorem IsLongest.of_append {w rest after : List Char} (h : IsLongest w (rest ++ after)) : IsLongest w rest := by
  intro v v' t? hv hsame
  apply h v (v' ++ after) t? hv
  rw [← List.append_assoc, hsame, List.append_assoc]

namespace Token

variable {c w : Char} {cs : List Char} {fault : SyntaxFault}

/-! ### One place -/

/-- The fault that is reported where there is no lexeme. -/
def faultAt (c : Char) (cs : List Char) : SyntaxFault :=
  if c.isDigit || c == '.' then .lonePoint
  else if c.isAlpha || c == '_' then .unknownName (String.ofList (c :: cs.takeWhile isWordPart))
  else .unexpectedCharacter c

theorem eq_faultAt_of_lexeme (h : lexeme c cs = .error fault) : fault = faultAt c cs := by
  unfold lexeme at h
  iterate 5
    split at h
    next => cases h
  split at h
  next => split at h <;> cases h
  unfold faultAt
  split at h
  next hnumeral =>
    rw [if_pos hnumeral]
    split at h
    next => cases h
    next => exact (Except.error.inj h).symm
  next hnumeral =>
    rw [if_neg hnumeral]
    split at h
    next hword =>
      rw [if_pos hword]
      unfold word at h
      simp only at h
      split at h
      next => cases h
      next => exact (Except.error.inj h).symm
    next hword =>
      rw [if_neg hword]
      exact (Except.error.inj h).symm

section Blank

variable (hw : Text.isBlank w = true)
include hw

theorem isBreak_of_isBlank : isBreak w = true := by rw [isBreak, hw, Bool.true_or, Bool.true_or]

theorem not_isWordPart_of_isBlank : isWordPart w = false := by
  rw [← Bool.not_eq_true]
  intro hpart
  have hnot := not_isBlank_of_isWordPart (c := w) (by rw [hpart, Bool.true_or])
  rw [hw] at hnot
  cases hnot

theorem takeWhile_append_blank (cs after : List Char) :
    (cs ++ w :: after).takeWhile isWordPart = cs.takeWhile isWordPart := by
  induction cs with
  | nil => simp [not_isWordPart_of_isBlank hw]
  | cons c cs ih => rw [List.cons_append, List.takeWhile_cons, List.takeWhile_cons, ih]

/-- What is taken at one place, or the fault there, is the same whatever stands after a blank. -/
theorem lexeme_append_blank (c : Char) (cs after : List Char) :
    lexeme c (cs ++ w :: after) = (lexeme c cs).map fun found => (found.1, found.2 ++ w :: after) := by
  have hbreak := isBreak_of_isBlank hw
  cases hpart : lexeme c cs with
  | ok found =>
      obtain ⟨v, hv, ht⟩ := exists_of_lexeme hpart
      obtain ⟨x, xs, rfl, -⟩ := ht.exists_cons
      have hlongest := (isLongest_of_lexeme hv hpart).append_break (List.cons_ne_nil x xs) hbreak after
      refine lexeme_eq_ok ht hlongest ?_
      rw [← List.cons_append, hv, List.append_assoc]
  | error fault =>
      cases hwhole : lexeme c (cs ++ w :: after) with
      | error fault' =>
          rw [eq_faultAt_of_lexeme hwhole, eq_faultAt_of_lexeme hpart, faultAt, faultAt,
            takeWhile_append_blank hw]
          rfl
      | ok found =>
          obtain ⟨v, hv, ht⟩ := exists_of_lexeme hwhole
          have hlongest := isLongest_of_lexeme hv hwhole
          obtain ⟨left, hleft, hrest⟩ := ht.exists_of_append_break (List.cons_ne_nil c cs) hbreak hv
          rw [hrest] at hlongest
          cases hpart.symm.trans (lexeme_eq_ok ht hlongest.of_append hleft)

/-! ### All places -/

theorem lex_append_cons_of_isBlank (cs after : List Char) :
    lex (cs ++ w :: after) = (lex cs).bind fun ts => (lex after).map (ts ++ ·) := by
  induction cs using lex.induct with
  | case1 =>
      rw [List.nil_append, lex_cons_of_isBlank hw, lex_nil]
      cases lex after <;> rfl
  | case2 c cs hc ih => rw [List.cons_append, lex_cons_of_isBlank hc, lex_cons_of_isBlank hc, ih]
  | case3 c cs hc fault hlexeme =>
      have hc' := Bool.eq_false_iff.2 hc
      rw [List.cons_append, lex_cons hc', lex_cons hc', lexeme_append_blank hw, hlexeme]
      rfl
  | case4 c cs hc t rest hlexeme _ ih =>
      have hc' := Bool.eq_false_iff.2 hc
      rw [List.cons_append, lex_cons hc', lex_cons hc', lexeme_append_blank hw, hlexeme]
      change (lex (rest ++ w :: after)).map _ = ((lex rest).map _).bind _
      rw [ih]
      cases lex rest with
      | error fault => rfl
      | ok ts => cases lex after <;> rfl

end Blank

/-- The lexer reaches the rest of a text when it has taken these tokens. -/
inductive Reaches : List Char → List Token → List Char → Prop
  | refl (cs : List Char) : Reaches cs [] cs
  | blank {c : Char} {cs rest : List Char} {ts : List Token} (hc : Text.isBlank c = true)
      (hrest : Reaches cs ts rest) : Reaches (c :: cs) ts rest
  | lexeme {c : Char} {cs left rest : List Char} {t : Token} {ts : List Token} (hc : Text.isBlank c = false)
      (ht : lexeme c cs = .ok (t, left)) (hrest : Reaches left ts rest) : Reaches (c :: cs) (t :: ts) rest

namespace Reaches

variable {rest : List Char} {ts : List Token}

theorem lex_eq (h : Reaches cs ts rest) : lex cs = (lex rest).map (ts ++ ·) := by
  induction h with
  | refl cs => cases lex cs <;> rfl
  | blank hc _ ih => rw [lex_cons_of_isBlank hc, ih]
  | @lexeme c cs left rest t ts hc ht _ ih =>
      rw [lex_cons_of_lexeme hc ht, ih]
      cases lex rest <;> rfl

theorem suffix (h : Reaches cs ts rest) : rest <:+ cs := by
  induction h with
  | refl cs => exact List.suffix_refl cs
  | blank _ _ ih => exact ih.trans (List.suffix_cons _ _)
  | lexeme _ ht _ ih =>
      obtain ⟨v, hv, -⟩ := exists_of_lexeme ht
      exact ih.trans ⟨v, hv.symm⟩

/-- What is taken on the way to a place is what is taken from the text before it. -/
theorem lex_before {before : List Char} (h : Reaches cs ts rest) (hcs : cs = before ++ rest) :
    lex before = .ok ts := by
  induction h generalizing before with
  | refl cs =>
      rw [List.self_eq_append_left.1 hcs, lex_nil]
  | @blank c cs rest ts hc hrest ih =>
      cases before with
      | nil =>
          have hlength := hrest.suffix.length_le
          rw [List.nil_append] at hcs
          rw [← hcs, List.length_cons] at hlength
          exact absurd hlength (Nat.not_succ_le_self _)
      | cons x before =>
          obtain ⟨rfl, hrest⟩ := List.cons.inj hcs
          rw [lex_cons_of_isBlank hc, ih hrest]
  | @lexeme c cs left rest t ts hc ht hrest ih =>
      obtain ⟨v, hv, hv'⟩ := exists_of_lexeme ht
      have hlongest := isLongest_of_lexeme hv ht
      obtain ⟨kept, rfl⟩ := hrest.suffix
      rw [hv, ← List.append_assoc] at hcs
      rw [← List.append_cancel_right hcs, lex_append_of_isLongest hv' hlongest.of_append, ih rfl]
      rfl

end Reaches

/-- The fault of a text is that of the first place that starts neither a blank nor a lexeme with a token. -/
theorem lex_eq_error_iff : lex cs = .error fault ↔
    ∃ ts c rest, Reaches cs ts (c :: rest) ∧ Text.isBlank c = false ∧ lexeme c rest = .error fault := by
  constructor
  · intro h
    induction cs using lex.induct with
    | case1 =>
        rw [lex_nil] at h
        cases h
    | case2 c cs hc ih =>
        rw [lex_cons_of_isBlank hc] at h
        obtain ⟨ts, x, rest, hreaches, hx⟩ := ih h
        exact ⟨ts, x, rest, .blank hc hreaches, hx⟩
    | case3 c cs hc fault' hlexeme =>
        rw [lex_cons (Bool.eq_false_iff.2 hc), hlexeme] at h
        cases h
        exact ⟨[], c, cs, .refl _, Bool.eq_false_iff.2 hc, hlexeme⟩
    | case4 c cs hc t left hlexeme _ ih =>
        have hc' := Bool.eq_false_iff.2 hc
        rw [lex_cons_of_lexeme hc' hlexeme] at h
        obtain ⟨ts, x, rest, hreaches, hx⟩ := ih (map_eq_error_iff.1 h)
        exact ⟨t :: ts, x, rest, .lexeme hc' hlexeme hreaches, hx⟩
  · rintro ⟨ts, c, rest, hreaches, hc, hlexeme⟩
    rw [hreaches.lex_eq, lex_cons hc, hlexeme]
    rfl

/-- A blank is a barrier. What stands after it neither goes on with what stands before it nor mends it, the fault
that is reported is that of the first place where there is no lexeme, and a blank between two lexemes that are
taken as such changes nothing. -/
theorem lex_blank (before after : List Char) (w : Char) (hw : Text.isBlank w = true) :
    lex (before ++ w :: after) = ((lex before).bind fun ts => (lex after).map (ts ++ ·)) ∧
    (∀ fault, lex before = .error fault ↔
      ∃ ts c rest, Reaches before ts (c :: rest) ∧ Text.isBlank c = false ∧ lexeme c rest = .error fault) ∧
    ∀ ts, Reaches (before ++ after) ts after → lex (before ++ w :: after) = lex (before ++ after) := by
  refine ⟨lex_append_cons_of_isBlank hw before after, fun _ => lex_eq_error_iff, ?_⟩
  intro ts h
  rw [lex_append_cons_of_isBlank hw, h.lex_before rfl, h.lex_eq]
  rfl

/-- A blank before the sign of an exponent leaves the constant and a difference, and one before an operator that
is taken by itself changes nothing. -/
theorem lex_blank_of_exponent : Text.isBlank ' ' = true ∧
    lex "2e -3".toList = .ok [number 2, constant .e, operator .sub, number 3] ∧
    Reaches "2*-3".toList [number 2] "*-3".toList ∧ lex "2 *-3".toList = lex "2*-3".toList := by
  have hblank : Text.isBlank ' ' = true := rfl
  have hnumber : Reaches "2*-3".toList [number 2] "*-3".toList := .lexeme rfl (by decide +kernel) (.refl _)
  refine ⟨hblank, ?_, hnumber, ?_⟩
  · have hlex : lex "2e".toList = .ok [number 2, constant .e] ∧ lex "-3".toList = .ok [operator .sub, number 3] := by
      decide +kernel
    refine (lex_blank "2e".toList "-3".toList ' ' hblank).1.trans ?_
    rw [hlex.1, hlex.2]
    rfl
  · exact (lex_blank "2".toList "*-3".toList ' ' hblank).2.2 [number 2] hnumber

end Token

end DeskCalc
