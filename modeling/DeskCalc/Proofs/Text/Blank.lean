import DeskCalc.Text.Blank

/-!
Trimming takes away nothing but blanks, and nothing at all from a text that neither starts nor ends with
one.
-/

namespace DeskCalc.Text

theorem exists_of_trim (cs : List Char) :
    ∃ before after, cs = before ++ (trim cs ++ after) ∧ (∀ c ∈ before, isBlank c = true) ∧
      ∀ c ∈ after, isBlank c = true := by
  let left := cs.dropWhile isBlank
  refine ⟨cs.takeWhile isBlank, (left.reverse.takeWhile isBlank).reverse, ?_, ?_, ?_⟩
  · rw [trim, ← List.reverse_append, List.takeWhile_append_dropWhile, List.reverse_reverse,
      List.takeWhile_append_dropWhile]
  · exact List.all_eq_true.1 List.all_takeWhile
  · intro c hc
    exact List.all_eq_true.1 List.all_takeWhile c (List.mem_reverse.1 hc)

theorem dropWhile_isBlank_of_head? {cs : List Char} (h : ∀ c ∈ cs.head?, isBlank c = false) :
    cs.dropWhile isBlank = cs := by
  cases cs with
  | nil => rfl
  | cons c cs => rw [List.dropWhile_cons, h c rfl, if_neg Bool.false_ne_true]

/-- A text with no blank at its ends. -/
structure IsTrimmed (cs : List Char) : Prop where
  ne_nil : cs ≠ []
  head : ∀ c ∈ cs.head?, isBlank c = false
  last : ∀ c ∈ cs.getLast?, isBlank c = false

namespace IsTrimmed

variable {cs ds : List Char}

theorem trim_eq (h : IsTrimmed cs) : trim cs = cs := by
  have hreverse : ∀ c ∈ cs.reverse.head?, isBlank c = false := by
    rw [List.head?_reverse]
    exact h.last
  rw [trim, dropWhile_isBlank_of_head? h.head, dropWhile_isBlank_of_head? hreverse, List.reverse_reverse]

theorem trim_append (h : IsTrimmed cs) {before after : List Char} (hbefore : ∀ c ∈ before, isBlank c = true)
    (hafter : ∀ c ∈ after, isBlank c = true) : trim (before ++ (cs ++ after)) = cs := by
  have hhead : ∀ c ∈ (cs ++ after).head?, isBlank c = false := by
    rw [List.head?_append, List.head?_eq_some_head h.ne_nil, Option.some_or, ← List.head?_eq_some_head h.ne_nil]
    exact h.head
  have hreverse : ∀ c ∈ after.reverse, isBlank c = true := by
    intro c hc
    exact hafter c (List.mem_reverse.1 hc)
  have hlast : ∀ c ∈ cs.reverse.head?, isBlank c = false := by
    rw [List.head?_reverse]
    exact h.last
  rw [trim, List.dropWhile_append_of_pos hbefore, dropWhile_isBlank_of_head? hhead, List.reverse_append,
    List.dropWhile_append_of_pos hreverse, dropWhile_isBlank_of_head? hlast, List.reverse_reverse]

theorem of_forall (hne : cs ≠ []) (h : ∀ c ∈ cs, isBlank c = false) : IsTrimmed cs where
  ne_nil := hne
  head c hc := h c (List.mem_of_head? hc)
  last c hc := h c (List.mem_of_getLast? hc)

/-- What stands between the ends does not matter. -/
theorem append (hcs : IsTrimmed cs) (hds : IsTrimmed ds) (middle : List Char) :
    IsTrimmed (cs ++ (middle ++ ds)) where
  ne_nil := List.append_ne_nil_of_left_ne_nil hcs.ne_nil _
  head c hc := by
    rw [List.head?_append, List.head?_eq_some_head hcs.ne_nil, Option.some_or] at hc
    exact hcs.head c (by rwa [List.head?_eq_some_head hcs.ne_nil])
  last c hc := by
    rw [List.getLast?_append, List.getLast?_append, List.getLast?_eq_some_getLast hds.ne_nil, Option.some_or,
      Option.some_or] at hc
    exact hds.last c (by rwa [List.getLast?_eq_some_getLast hds.ne_nil])

end IsTrimmed

theorem isTrimmed_singleton {c : Char} (hc : isBlank c = false) : IsTrimmed [c] :=
  .of_forall (List.cons_ne_nil c []) (by simpa using hc)

end DeskCalc.Text
