import DeskCalc.Matrix.Reader
import DeskCalc.Proofs.Text.Pieces

/-!
Reading a matrix as one scan of a numbered list of lines. The text is cut at newlines alone and each line at
separators; what is left without a piece is not counted. The first line at fault decides the error, and
without one the rows are the numbers of the lines. The list of lines does not depend on how separators are
written, so neither do the matrix and the error.
-/

namespace DeskCalc.DenseMatrix

/-- The lines of a text that have pieces, each as the list of them. -/
def numberLines (cs : List Char) : List (List (List Char)) :=
  ((cs.splitOnP (· == '\n')).map fun line => (line.splitOnP isSeparator).filter (!·.isEmpty)).filter
    (!·.isEmpty)

def isRefused (piece : List Char) : Bool := (readNumber? piece).isNone

/-- What is wrong with a line and its number in a text whose first line has `width` pieces: the first of
its pieces that is no number, otherwise its length. -/
def fault? (width : Nat) (line : List (List Char) × Nat) : Option ReadError :=
  match line.1.find? isRefused with
  | some piece => some (.invalidNumber (String.ofList piece) line.2)
  | none => if line.1.length = width then none else some (.unequalLines line.2 width line.1.length)

/-- The numbers of a text line by line, or what is wrong with the first line at fault. -/
def scan (cs : List Char) : Except ReadError (List (List Float)) :=
  match numberLines cs with
  | [] => .error .emptyInput
  | first :: rest =>
    match ((first :: rest).zipIdx 1).findSome? (fault? first.length) with
    | some e => .error e
    | none => .ok ((first :: rest).map (·.filterMap readNumber?))

/-- Two runs of separators that part the same lines and the same numbers wherever they stand. -/
structure Exchangeable (s t : List Char) : Prop where
  left : ∀ c ∈ s, isSeparator c = true
  right : ∀ c ∈ t, isSeparator c = true
  nil_iff : s = [] ↔ t = []
  newline_iff : '\n' ∈ s ↔ '\n' ∈ t

section Rows

variable {u s t x y : List Char}

theorem writtenRows_eq_numberLines (cs : List Char) : writtenRows cs = numberLines cs :=
  Text.filter_pieces_lines (by decide) cs

theorem ne_nil_of_mem_numberLines {cs : List Char} {pieces : List (List Char)}
    (h : pieces ∈ numberLines cs) : pieces ≠ [] := by
  have hfilled := (List.mem_filter.1 h).2
  rintro rfl
  cases hfilled

theorem numberLines_append_newline (u v : List Char) :
    numberLines (u ++ '\n' :: v) = numberLines u ++ numberLines v := by
  rw [numberLines, List.splitOnP_append_cons u v (by rfl), List.map_append, List.filter_append]
  rfl

theorem numberLines_of_not_mem (h : '\n' ∉ u) :
    numberLines u = [Text.pieces isSeparator u].filter (!·.isEmpty) := by
  have hline : u.splitOnP (· == '\n') = [u] := by
    refine List.splitOnP_eq_singleton fun c hc => ?_
    rw [beq_eq_false_iff_ne]
    rintro rfl
    exact h hc
  rw [numberLines, hline]
  rfl

/-- Only the line on which two texts start to differ matters. -/
theorem numberLines_append_congr_left
    (h : ∀ u, '\n' ∉ u → numberLines (u ++ x) = numberLines (u ++ y)) (u : List Char) :
    numberLines (u ++ x) = numberLines (u ++ y) := by
  by_cases hu : '\n' ∈ u.reverse
  · obtain ⟨last, before, hsplit, hlast⟩ := List.eq_append_cons_of_mem hu
    obtain rfl : u = before.reverse ++ '\n' :: last.reverse := by
      rw [← List.reverse_reverse u, hsplit]
      simp
    rw [List.append_assoc, List.cons_append, List.append_assoc, List.cons_append,
      numberLines_append_newline, numberLines_append_newline, h _ (by simpa using hlast)]
  · exact h u (by simpa using hu)

/-- Only the line on which two texts cease to differ matters. -/
theorem numberLines_append_congr_right
    (h : ∀ v, '\n' ∉ v → numberLines (x ++ v) = numberLines (y ++ v)) (v : List Char) :
    numberLines (x ++ v) = numberLines (y ++ v) := by
  by_cases hv : '\n' ∈ v
  · obtain ⟨first, after, rfl, hfirst⟩ := List.eq_append_cons_of_mem hv
    rw [← List.append_assoc, ← List.append_assoc, numberLines_append_newline, numberLines_append_newline,
      h first hfirst]
  · exact h v hv

theorem numberLines_append_separator {c : Char} (hc : isSeparator c = true) (u : List Char) :
    numberLines (u ++ [c]) = numberLines u := by
  by_cases hnewline : c = '\n'
  · rw [hnewline, numberLines_append_newline]
    exact List.append_nil _
  · have hinline : ∀ u, '\n' ∉ u → numberLines (u ++ [c]) = numberLines (u ++ []) := by
      intro u hu
      have hline : '\n' ∉ u ++ [c] := by simp [hu, Ne.symm hnewline]
      rw [List.append_nil, numberLines_of_not_mem hline, numberLines_of_not_mem hu,
        Text.pieces_append_cuts (by simpa using hc)]
    rw [numberLines_append_congr_left hinline, List.append_nil]

theorem numberLines_separator_cons {c : Char} (hc : isSeparator c = true) (v : List Char) :
    numberLines (c :: v) = numberLines v := by
  by_cases hnewline : c = '\n'
  · rw [hnewline]
    exact numberLines_append_newline [] v
  · have hinline : ∀ v, '\n' ∉ v → numberLines ([c] ++ v) = numberLines ([] ++ v) := by
      intro v hv
      have hline : '\n' ∉ [c] ++ v := by simp [hv, Ne.symm hnewline]
      rw [List.nil_append, numberLines_of_not_mem hline, numberLines_of_not_mem hv,
        Text.pieces_cuts_append (by simpa using hc)]
    exact numberLines_append_congr_right hinline v

theorem numberLines_append_separators (hs : ∀ c ∈ s, isSeparator c = true) (u : List Char) :
    numberLines (u ++ s) = numberLines u := by
  induction s generalizing u with
  | nil => rw [List.append_nil]
  | cons c s ih =>
      have hrest := ih (fun x hx => hs x (List.mem_cons_of_mem c hx)) (u ++ [c])
      rw [List.append_assoc, List.singleton_append] at hrest
      rw [hrest, numberLines_append_separator (hs c List.mem_cons_self)]

theorem numberLines_separators_append (hs : ∀ c ∈ s, isSeparator c = true) (v : List Char) :
    numberLines (s ++ v) = numberLines v := by
  induction s with
  | nil => rfl
  | cons c s ih =>
      rw [List.cons_append, numberLines_separator_cons (hs c List.mem_cons_self),
        ih fun x hx => hs x (List.mem_cons_of_mem c hx)]

/-- A run of separators with a newline parts the lines before it from those after it. -/
theorem numberLines_append_run (hs : ∀ c ∈ s, isSeparator c = true) (hmem : '\n' ∈ s) (u v : List Char) :
    numberLines (u ++ s ++ v) = numberLines u ++ numberLines v := by
  obtain ⟨before, after, rfl⟩ := List.append_of_mem hmem
  have hbefore : ∀ c ∈ before, isSeparator c = true := fun c hc => hs c (by simp [hc])
  have hafter : ∀ c ∈ after, isSeparator c = true := fun c hc => hs c (by simp [hc])
  calc numberLines (u ++ (before ++ '\n' :: after) ++ v)
      = numberLines ((u ++ before) ++ '\n' :: (after ++ v)) := by simp
    _ = numberLines (u ++ before) ++ numberLines (after ++ v) := numberLines_append_newline _ _
    _ = numberLines u ++ numberLines v := by
      rw [numberLines_append_separators hbefore, numberLines_separators_append hafter]

theorem numberLines_exchange (h : Exchangeable s t) (u v : List Char) :
    numberLines (u ++ s ++ v) = numberLines (u ++ t ++ v) := by
  by_cases hnewline : '\n' ∈ s
  · rw [numberLines_append_run h.left hnewline, numberLines_append_run h.right (h.newline_iff.1 hnewline)]
  · have hnewline' : '\n' ∉ t := fun hmem => hnewline (h.newline_iff.2 hmem)
    by_cases hnil : s = []
    · rw [hnil, h.nil_iff.1 hnil]
    · have hnil' : t ≠ [] := fun heq => hnil (h.nil_iff.2 heq)
      -- without a newline the run stands within one line, where it parts the numbers
      have hinline : ∀ u v, '\n' ∉ u → '\n' ∉ v → numberLines (u ++ s ++ v) = numberLines (u ++ t ++ v) := by
        intro u v hu hv
        have hline : '\n' ∉ u ++ s ++ v := by simp [hu, hv, hnewline]
        have hline' : '\n' ∉ u ++ t ++ v := by simp [hu, hv, hnewline']
        rw [numberLines_of_not_mem hline, numberLines_of_not_mem hline', Text.pieces_append_run h.left hnil,
          Text.pieces_append_run h.right hnil']
      refine numberLines_append_congr_right (fun v hv => ?_) v
      rw [List.append_assoc, List.append_assoc]
      refine numberLines_append_congr_left (fun u hu => ?_) u
      rw [← List.append_assoc, ← List.append_assoc]
      exact hinline u v hu hv

end Rows

section Scan

variable {pieces first : List (List Char)} {rows rest : List (List (List Char))}

theorem isFinite_of_readNumber? {piece : List Char} {x : Float} (h : readNumber? piece = some x) :
    x.isFinite = true := (Option.filter_eq_some_iff.1 h).2

theorem readRow_eq_find? (line : Nat) (pieces : List (List Char)) :
    readRow line pieces =
      match pieces.find? isRefused with
      | some piece => .error (.invalidNumber (String.ofList piece) line)
      | none => .ok (pieces.filterMap readNumber?) := by
  induction pieces with
  | nil => rfl
  | cons piece rest ih =>
      rw [readRow, List.find?_cons, isRefused, List.filterMap_cons, ih]
      cases readNumber? piece with
      | none => rfl
      | some x =>
          cases hfind : rest.find? isRefused with
          | none => rfl
          | some refused => rfl

theorem map_some_filterMap (h : pieces.find? isRefused = none) :
    (pieces.filterMap readNumber?).map some = pieces.map readNumber? := by
  induction pieces with
  | nil => rfl
  | cons piece rest ih =>
      rw [List.find?_cons, isRefused] at h
      cases hpiece : readNumber? piece with
      | none =>
          rw [hpiece] at h
          cases h
      | some x =>
          rw [hpiece] at h
          rw [List.filterMap_cons, hpiece, List.map_cons, List.map_cons, hpiece, ih h]

theorem length_filterMap (h : pieces.find? isRefused = none) :
    (pieces.filterMap readNumber?).length = pieces.length := by
  simpa using congrArg List.length (map_some_filterMap h)

/-- Once the length of the first line is known, reading stops at the first fault. -/
theorem readRows_some (width line : Nat) (rows : List (List (List Char))) :
    readRows (some width) line rows =
      match (rows.zipIdx line).findSome? (fault? width) with
      | some e => .error e
      | none => .ok (rows.map (·.filterMap readNumber?)) := by
  induction rows generalizing line with
  | nil => rfl
  | cons pieces rest ih =>
      rw [readRows, readRow_eq_find?, List.zipIdx_cons, List.findSome?_cons, fault?]
      cases hfind : pieces.find? isRefused with
      | some piece => rfl
      | none =>
          by_cases hwidth : pieces.length = width
          · simp only [Option.getD_some, length_filterMap hfind, hwidth, if_true, ih (line + 1)]
            cases (rest.zipIdx (line + 1)).findSome? (fault? width) with
            | none => rfl
            | some e => rfl
          · simp only [Option.getD_some, length_filterMap hfind, hwidth, if_false]

theorem readRows_none (line : Nat) (first : List (List Char)) (rest : List (List (List Char))) :
    readRows none line (first :: rest) = readRows (some first.length) line (first :: rest) := by
  rw [readRows, readRows, readRow_eq_find?]
  cases hfind : first.find? isRefused with
  | some piece => rfl
  | none => simp only [Option.getD_none, Option.getD_some, length_filterMap hfind]

theorem fault?_eq_none_iff (width : Nat) (line : List (List Char) × Nat) :
    fault? width line = none ↔ line.1.find? isRefused = none ∧ line.1.length = width := by
  rw [fault?]
  cases hfind : line.1.find? isRefused with
  | some piece => simp
  | none => simp

theorem of_findSome?_fault?_eq_none {width line : Nat}
    (h : (rows.zipIdx line).findSome? (fault? width) = none) (hmem : pieces ∈ rows) :
    pieces.find? isRefused = none ∧ pieces.length = width := by
  obtain ⟨i, hi, rfl⟩ := List.mem_iff_getElem.1 hmem
  have hnumbered : (rows[i], line + i) ∈ rows.zipIdx line := by
    rw [List.mk_add_mem_zipIdx_iff_getElem?, List.getElem?_eq_getElem hi]
  exact (fault?_eq_none_iff width _).1 (List.findSome?_eq_none_iff.1 h _ hnumbered)

theorem exists_ofRows? {α : Type} {first : List α} {rest : List (List α)} (hpos : 0 < first.length)
    (hshape : ∀ row ∈ first :: rest, row.length = first.length) :
    ∃ a, ofRows? (first :: rest) = some a := ⟨_, dif_pos ⟨hpos, hshape⟩⟩

theorem map_toRows_read (text : String) : (read text).map toRows = scan text.toList := by
  have hfilled := fun pieces => @ne_nil_of_mem_numberLines text.toList pieces
  rw [read, scan, writtenRows_eq_numberLines]
  cases hlines : numberLines text.toList with
  | nil => rfl
  | cons first rest =>
      rw [readRows_none, readRows_some]
      cases hfault : ((first :: rest).zipIdx 1).findSome? (fault? first.length) with
      | some e =>
          simp only [hfault]
          rfl
      | none =>
          have hfirst : 0 < (first.filterMap readNumber?).length := by
            rw [length_filterMap (of_findSome?_fault?_eq_none hfault List.mem_cons_self).1]
            exact List.length_pos_iff.2 (hfilled first (by simp [hlines]))
          have hshape : ∀ row ∈ (first :: rest).map (·.filterMap readNumber?),
              row.length = (first.filterMap readNumber?).length := by
            intro row hrow
            obtain ⟨pieces, hmem, rfl⟩ := List.mem_map.1 hrow
            have hpieces := of_findSome?_fault?_eq_none hfault hmem
            have hhead := of_findSome?_fault?_eq_none hfault List.mem_cons_self
            rw [length_filterMap hpieces.1, length_filterMap hhead.1, hpieces.2]
          obtain ⟨a, ha⟩ := exists_ofRows? hfirst hshape
          rw [← List.map_cons] at ha
          simp only [ha, hfault]
          exact congrArg Except.ok (toRows_of_ofRows? ha)

theorem read_congr {text other : String} (h : numberLines text.toList = numberLines other.toList) :
    read text = read other := by
  rw [read, read, writtenRows_eq_numberLines, writtenRows_eq_numberLines, h]

theorem map_some_of_scan {cs : List Char} {values : List (List Float)} (h : scan cs = .ok values) :
    values.map (·.map some) = (numberLines cs).map (·.map readNumber?) := by
  rw [scan] at h
  cases hlines : numberLines cs with
  | nil =>
      rw [hlines] at h
      cases h
  | cons first rest =>
      rw [hlines] at h
      cases hfault : ((first :: rest).zipIdx 1).findSome? (fault? first.length) with
      | some e =>
          simp only [hfault] at h
          cases h
      | none =>
          simp only [hfault] at h
          obtain rfl := Except.ok.inj h
          rw [List.map_map]
          refine List.map_congr_left fun pieces hmem => ?_
          exact map_some_filterMap (of_findSome?_fault?_eq_none hfault hmem).1

theorem map_some_toRows {text : String} {a : DenseMatrix Float} (h : read text = .ok a) :
    a.toRows.map (·.map some) = (numberLines text.toList).map (·.map readNumber?) :=
  map_some_of_scan (by rw [← map_toRows_read, h, Except.map])

/-- Every entry is the number that a piece of the text writes. -/
theorem isFinite_of_read {text : String} {a : DenseMatrix Float} (h : read text = .ok a) {row : List Float}
    (hrow : row ∈ a.toRows) {x : Float} (hx : x ∈ row) : x.isFinite = true := by
  have hmem : row.map some ∈ (numberLines text.toList).map (·.map readNumber?) := by
    rw [← map_some_toRows h]
    exact List.mem_map_of_mem hrow
  obtain ⟨pieces, -, hpieces⟩ := List.mem_map.1 hmem
  have hsome : some x ∈ pieces.map readNumber? := by
    rw [hpieces]
    exact List.mem_map_of_mem hx
  obtain ⟨piece, -, hpiece⟩ := List.mem_map.1 hsome
  exact isFinite_of_readNumber? hpiece

end Scan

/-- Reading a text is scanning its numbered lines. A matrix that is read has the numbers of these lines as
its rows, at least one row and one column, rows of one length and finite entries. Runs of separators may be
exchanged, such as a newline and one with a carriage return before it or lines without a number after it,
and runs at either end of the text have no effect. -/
theorem read_eq_scan :
    (∀ text : String, (read text).map toRows = scan text.toList) ∧
    (∀ (text : String) (a : DenseMatrix Float), read text = .ok a →
      a.toRows.map (·.map some) = (numberLines text.toList).map (·.map readNumber?) ∧
      0 < a.rows ∧ 0 < a.columns ∧ a.toRows.length = a.rows ∧
      ∀ row ∈ a.toRows, row.length = a.columns ∧ ∀ x ∈ row, x.isFinite = true) ∧
    (∀ u v s t : String, Exchangeable s.toList t.toList → read (u ++ s ++ v) = read (u ++ t ++ v)) ∧
    ∀ text s : String, (∀ c ∈ s.toList, isSeparator c = true) →
      read (s ++ text) = read text ∧ read (text ++ s) = read text := by
  refine ⟨map_toRows_read, fun text a h => ?_, fun u v s t h => ?_, fun text s hs => ⟨?_, ?_⟩⟩
  · exact ⟨map_some_toRows h, a.rows_pos, a.columns_pos, a.length_toRows,
      fun row hrow => ⟨length_of_mem_toRows hrow, fun x hx => isFinite_of_read h hrow hx⟩⟩
  · refine read_congr ?_
    simp only [String.toList_append, numberLines_exchange h]
  · refine read_congr ?_
    rw [String.toList_append, numberLines_separators_append hs]
  · refine read_congr ?_
    rw [String.toList_append, numberLines_append_separators hs]

theorem read_two_lines :
    ∃ a, read ("1, 2" ++ "\r\n" ++ "3 4") = .ok a ∧ a.toRows.length = a.rows ∧
      (∀ row ∈ a.toRows, row.length = a.columns ∧ ∀ x ∈ row, x.isFinite = true) ∧
      read ("1, 2" ++ "\n , \n" ++ "3 4") = .ok a ∧ read ("1, 2" ++ "\r\n" ++ "3 4" ++ "\n") = .ok a := by
  have hread : (read ("1, 2" ++ "\r\n" ++ "3 4")).toOption.isSome = true := by decide +kernel
  cases ha : read ("1, 2" ++ "\r\n" ++ "3 4") with
  | error e =>
      rw [ha] at hread
      cases hread
  | ok a =>
      have hshape := read_eq_scan.2.1 _ a ha
      have hexchange := read_eq_scan.2.2.1 "1, 2" "3 4" "\r\n" "\n , \n"
        ⟨List.all_eq_true.1 rfl, List.all_eq_true.1 rfl, by decide, by decide⟩
      have hlast := (read_eq_scan.2.2.2 ("1, 2" ++ "\r\n" ++ "3 4") "\n" (List.all_eq_true.1 rfl)).2
      exact ⟨a, rfl, hshape.2.2.2.1, hshape.2.2.2.2, hexchange.symm.trans ha, hlast.trans ha⟩

end DeskCalc.DenseMatrix
