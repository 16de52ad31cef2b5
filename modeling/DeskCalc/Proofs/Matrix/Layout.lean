import DeskCalc.Matrix.Layout
import DeskCalc.Proofs.Display.General
import DeskCalc.Proofs.Expression.Lexing
import DeskCalc.Proofs.Matrix.Reading
import Mathlib

/-!
A written matrix, read again. Its text falls into the lines and pieces that it was put together from, one piece
for each entry. A piece is a number exactly if the entry is finite and stays finite when it is rounded to the
digits that are shown: the text of anything else names no number, and a numeral beyond the largest double is
refused. So the text is read exactly if that holds of all entries, and what is read has the same shape.
-/

namespace DeskCalc

namespace Text

variable {isCut : Char → Bool} {separator part : List Char} {parts : List (List Char)}

theorem joined_cons_cons (separator part next : List Char) (rest : List (List Char)) :
    joined separator (part :: next :: rest) = part ++ separator ++ joined separator (next :: rest) := by
  simp [joined, List.intersperse]

theorem joined_singleton (separator part : List Char) : joined separator [part] = part := by
  simp [joined]

theorem mem_or_of_mem_joined {c : Char} (h : c ∈ joined separator parts) :
    c ∈ separator ∨ ∃ part ∈ parts, c ∈ part := by
  induction parts with
  | nil => cases h
  | cons part rest ih =>
      cases rest with
      | nil =>
          rw [joined_singleton] at h
          exact .inr ⟨part, List.mem_cons_self, h⟩
      | cons next rest =>
          rw [joined_cons_cons, List.append_assoc] at h
          rcases List.mem_append.1 h with hpart | h
          · exact .inr ⟨part, List.mem_cons_self, hpart⟩
          rcases List.mem_append.1 h with hseparator | h
          · exact .inl hseparator
          · exact (ih h).imp_right fun ⟨found, hfound, hc⟩ => ⟨found, List.mem_cons_of_mem part hfound, hc⟩

theorem pieces_eq_singleton (hne : part ≠ []) (hpart : ∀ c ∈ part, isCut c = false) :
    pieces isCut part = [part] := by
  rw [pieces, List.splitOnP_eq_singleton hpart]
  simp [hne]

/-- Parts without a cut in them are the pieces of what is joined from them. -/
theorem pieces_joined (hseparator : ∀ c ∈ separator, isCut c = true) (hne : separator ≠ [])
    (hparts : ∀ part ∈ parts, part ≠ [] ∧ ∀ c ∈ part, isCut c = false) :
    pieces isCut (joined separator parts) = parts := by
  induction parts with
  | nil => rfl
  | cons part rest ih =>
      obtain ⟨hpart, hrest⟩ := List.forall_mem_cons.1 hparts
      cases rest with
      | nil => rw [joined_singleton, pieces_eq_singleton hpart.1 hpart.2]
      | cons next rest =>
          rw [joined_cons_cons, pieces_append_run hseparator hne, pieces_eq_singleton hpart.1 hpart.2, ih hrest,
            List.singleton_append]

end Text

/-! ### One entry -/

/-- Whether an entry is shown as a number, with at most `digits` significant digits. -/
def IsReadable (digits : Nat) (x : Float) : Prop :=
  x.isFinite = true ∧ (Binary64.significant (Binary64.ordinal x) digits).toFloat.isFinite = true

section Entry

variable {digits : Nat} {x : Float}

/-- The double that is nearest to what is shown of another, with the same sign. -/
def Binary64.shown (digits : Nat) (x : Float) : Float :=
  if isNegative x then -(significant (ordinal x) digits).toFloat else (significant (ordinal x) digits).toFloat

theorem isFinite_shown (digits : Nat) (x : Float) :
    (Binary64.shown digits x).isFinite = (Binary64.significant (Binary64.ordinal x) digits).toFloat.isFinite := by
  unfold Binary64.shown
  split
  · exact Decimal.isFinite_neg_toFloat _
  · rfl

theorem signedDouble?_generalText (hdigits : 0 < digits) (hx : x.isFinite = true) :
    signedDouble? (generalText x digits).toList = some (Binary64.shown digits x) := by
  obtain ⟨n, htext, hvalue⟩ := exists_numeral_generalText hdigits hx
  rw [htext, signedDouble?_append (signText_cases x), hvalue, Binary64.shown]
  congr 1
  unfold signText
  split
  · rfl
  · rfl

/-- The texts of what is no finite double. -/
theorem generalText_of_not_isFinite (hdigits : 0 < digits) (hx : x.isFinite ≠ true) :
    (generalText x digits).toList ∈ ["nan".toList, "inf".toList, "-inf".toList] := by
  rw [Ne, Binary64.isFinite_iff, Nat.not_lt] at hx
  rw [toList_generalText hdigits, Style.text]
  by_cases hnan : Binary64.infinite < Binary64.ordinal x
  · rw [if_pos hnan]
    exact List.mem_cons_self
  · rw [if_neg hnan, if_pos (Nat.le_antisymm (Nat.not_lt.1 hnan) hx)]
    split
    · exact List.mem_cons_of_mem _ (List.mem_cons_of_mem _ List.mem_cons_self)
    · exact List.mem_cons_of_mem _ List.mem_cons_self

theorem isSome_readNumber?_generalText (hdigits : 0 < digits) (x : Float) :
    (readNumber? (generalText x digits).toList).isSome = true ↔ IsReadable digits x := by
  by_cases hx : x.isFinite = true
  · rw [IsReadable, and_iff_right hx, readNumber?, signedDouble?_generalText hdigits hx, Option.isSome_filter,
      ← isFinite_shown]
    simp
  · have hrefused : ∀ cs ∈ ["nan".toList, "inf".toList, "-inf".toList], (readNumber? cs).isSome = false := by
      decide
    rw [hrefused _ (generalText_of_not_isFinite hdigits hx)]
    exact iff_of_false Bool.false_ne_true fun h => hx h.1

theorem generalText_ne_nil (hdigits : 0 < digits) (x : Float) : (generalText x digits).toList ≠ [] := by
  rw [toList_generalText hdigits]
  exact Style.text_ne_nil (Style.general_writesExponents digits) (List.cons_ne_nil _ _) _ x

theorem not_isSeparator_of_isPart {c : Char} (h : Numeral.isPart c = true) :
    DenseMatrix.isSeparator c = false := by
  have hcomma : c ≠ ',' := by
    rintro rfl
    revert h
    decide
  simp [DenseMatrix.isSeparator, Token.not_isBlank_of_isWordPart (Token.isWordPart_of_isPart h), hcomma]

theorem not_isSeparator_of_mem_generalText (hdigits : 0 < digits) {c : Char}
    (hc : c ∈ (generalText x digits).toList) : DenseMatrix.isSeparator c = false := by
  by_cases hx : x.isFinite = true
  · have hpart : Numeral.isPart c = true ∨ c = '+' ∨ c = '-' := by
      obtain ⟨n, htext, -⟩ := exists_numeral_generalText hdigits hx
      rw [htext] at hc
      rcases List.mem_append.1 hc with hsign | hc
      · rcases signText_cases x with h | h | h <;> rw [h] at hsign <;> simp_all
      · exact n.isPart_or_sign_of_mem_text hc
    rcases hpart with hpart | rfl | rfl
    · exact not_isSeparator_of_isPart hpart
    · rfl
    · rfl
  · have hfree : ∀ cs ∈ ["nan".toList, "inf".toList, "-inf".toList],
        cs.all (fun c => DenseMatrix.isSeparator c == false) = true := by
      decide
    exact eq_of_beq (List.all_eq_true.1 (hfree _ (generalText_of_not_isFinite hdigits hx)) c hc)

end Entry

/-! ### The whole text -/

namespace DenseMatrix

variable {α β : Type} {digits : Nat}

theorem toRows_ne_nil (a : DenseMatrix α) : a.toRows ≠ [] := by
  rw [← List.length_pos_iff, length_toRows]
  exact a.rows_pos

theorem ne_nil_of_mem_toRows {a : DenseMatrix α} {row : List α} (h : row ∈ a.toRows) : row ≠ [] := by
  rw [← List.length_pos_iff, length_of_mem_toRows h]
  exact a.columns_pos

theorem map_length_toRows (a : DenseMatrix α) : a.toRows.map List.length = List.replicate a.rows a.columns := by
  rw [List.eq_replicate_iff, List.length_map, length_toRows]
  refine ⟨rfl, fun n hn => ?_⟩
  obtain ⟨row, hrow, rfl⟩ := List.mem_map.1 hn
  exact length_of_mem_toRows hrow

theorem shape_eq_of_map_length {a : DenseMatrix α} {b : DenseMatrix β}
    (h : a.toRows.map List.length = b.toRows.map List.length) : a.shape = b.shape := by
  rw [map_length_toRows, map_length_toRows, List.replicate_inj] at h
  obtain ⟨hrows, hcolumns⟩ := h
  rw [shape, shape, hrows, hcolumns.resolve_left a.rows_pos.ne']

theorem numberLines_joined {lines : List (List Char)} (h : ∀ line ∈ lines, '\n' ∉ line) :
    numberLines (Text.joined ['\n'] lines) = (lines.map (Text.pieces isSeparator)).filter (!·.isEmpty) := by
  induction lines with
  | nil => rfl
  | cons line rest ih =>
      obtain ⟨hline, hrest⟩ := List.forall_mem_cons.1 h
      cases rest with
      | nil => rw [Text.joined_singleton, numberLines_of_not_mem hline, List.map_singleton]
      | cons next rest =>
          rw [Text.joined_cons_cons, List.append_assoc, List.singleton_append, numberLines_append_newline,
            numberLines_of_not_mem hline, ih hrest, ← List.filter_append, List.singleton_append, ← List.map_cons]

/-- The lines of the text of a matrix are its rows. -/
theorem numberLines_text (hdigits : 0 < digits) (a : DenseMatrix Float) :
    numberLines (a.text digits).toList = a.toRows.map (·.map fun x => (generalText x digits).toList) := by
  have hfree : ∀ x c, c ∈ (generalText x digits).toList → isSeparator c = false :=
    fun x c hc => not_isSeparator_of_mem_generalText hdigits hc
  have hlines : ∀ line ∈ a.toRows.map fun row =>
      Text.joined [' ', ' '] (row.map fun x => (generalText x digits).toList), '\n' ∉ line := by
    intro line hline hmem
    obtain ⟨row, -, rfl⟩ := List.mem_map.1 hline
    rcases Text.mem_or_of_mem_joined hmem with hseparator | ⟨part, hpart, hmem⟩
    · simp at hseparator
    · obtain ⟨x, -, rfl⟩ := List.mem_map.1 hpart
      cases hfree x '\n' hmem
  have hpieces : ∀ row : List Float, Text.pieces isSeparator
      (Text.joined [' ', ' '] (row.map fun x => (generalText x digits).toList)) =
        row.map fun x => (generalText x digits).toList := by
    intro row
    refine Text.pieces_joined (List.all_eq_true.1 rfl) (List.cons_ne_nil _ _) fun part hpart => ?_
    obtain ⟨x, -, rfl⟩ := List.mem_map.1 hpart
    exact ⟨generalText_ne_nil hdigits x, hfree x⟩
  rw [text, String.toList_ofList, numberLines_joined hlines, List.map_map, List.filter_eq_self.2]
  · exact List.map_congr_left fun row _ => hpieces row
  · intro pieces hmem
    obtain ⟨row, hrow, rfl⟩ := List.mem_map.1 hmem
    rw [Function.comp_apply, hpieces]
    simpa using ne_nil_of_mem_toRows hrow

/-- A text whose lines have equally many pieces is read exactly if all of them are numbers. -/
theorem exists_read_iff {text : String} {lines : List (List (List Char))} {width : Nat}
    (hlines : numberLines text.toList = lines) (hne : lines ≠ []) (hwidth : ∀ line ∈ lines, line.length = width) :
    (∃ b, read text = .ok b) ↔ ∀ line ∈ lines, ∀ piece ∈ line, (readNumber? piece).isSome = true := by
  constructor
  · rintro ⟨b, hb⟩ line hline piece hpiece
    have hnumbers : line.map readNumber? ∈ b.toRows.map (·.map some) := by
      rw [map_some_toRows hb, hlines]
      exact List.mem_map_of_mem hline
    obtain ⟨row, -, hrow⟩ := List.mem_map.1 hnumbers
    have hnumber : readNumber? piece ∈ row.map some := by
      rw [hrow]
      exact List.mem_map_of_mem hpiece
    obtain ⟨x, -, hx⟩ := List.mem_map.1 hnumber
    rw [← hx, Option.isSome_some]
  · intro hnumbers
    obtain ⟨first, rest, rfl⟩ := List.exists_cons_of_ne_nil hne
    have hfault : ((first :: rest).zipIdx 1).findSome? (fault? first.length) = none := by
      refine List.findSome?_eq_none_iff.2 fun line hline => ?_
      have hmem : line.1 ∈ first :: rest := List.fst_mem_of_mem_zipIdx hline
      rw [fault?_eq_none_iff, hwidth _ hmem, hwidth _ List.mem_cons_self]
      refine ⟨List.find?_eq_none.2 fun piece hpiece => ?_, rfl⟩
      rw [isRefused, ← Option.not_isSome, hnumbers _ hmem piece hpiece]
      decide
    have hscan : scan text.toList = .ok ((first :: rest).map (·.filterMap readNumber?)) := by
      rw [scan, hlines]
      simp only [hfault]
    cases hread : read text with
    | ok b => exact ⟨b, rfl⟩
    | error e =>
        rw [← map_toRows_read, hread] at hscan
        cases hscan

theorem exists_read_text_iff (hdigits : 0 < digits) (a : DenseMatrix Float) :
    (∃ b, read (a.text digits) = .ok b) ↔ ∀ row ∈ a.toRows, ∀ x ∈ row, IsReadable digits x := by
  have hne : (a.toRows.map (·.map fun x => (generalText x digits).toList)) ≠ [] := by
    simpa using a.toRows_ne_nil
  have hwidth : ∀ line ∈ a.toRows.map (·.map fun x => (generalText x digits).toList),
      line.length = a.columns := by
    intro line hline
    obtain ⟨row, hrow, rfl⟩ := List.mem_map.1 hline
    rw [List.length_map, length_of_mem_toRows hrow]
  rw [exists_read_iff (numberLines_text hdigits a) hne hwidth]
  simp only [List.forall_mem_map, isSome_readNumber?_generalText hdigits]

theorem shape_of_read_text (hdigits : 0 < digits) {a b : DenseMatrix Float} (h : read (a.text digits) = .ok b) :
    b.shape = a.shape := by
  apply shape_eq_of_map_length
  have hrows := map_some_toRows h
  rw [numberLines_text hdigits] at hrows
  simpa [Function.comp_def] using congrArg (List.map List.length) hrows

end DenseMatrix

end DeskCalc
