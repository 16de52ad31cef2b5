import DeskCalc.Text.Pieces

/-!
The pieces of a text under changes of its cuts. One cut parts the pieces before it from those after it, a
run of cuts does no more than one, and a run at either end of the text does nothing. Where the carriage
return is a cut, the lines of a text have the same pieces as what stands between its newlines.
-/

namespace DeskCalc.Text

variable {isCut : Char → Bool} {s : List Char}

theorem pieces_nil : pieces isCut [] = [] := rfl

theorem pieces_append_cons (u v : List Char) {c : Char} (hc : isCut c = true) :
    pieces isCut (u ++ c :: v) = pieces isCut u ++ pieces isCut v := by
  rw [pieces, List.splitOnP_append_cons u v hc, List.filter_append]
  rfl

theorem pieces_cuts_append (hs : ∀ c ∈ s, isCut c = true) (v : List Char) :
    pieces isCut (s ++ v) = pieces isCut v := by
  induction s with
  | nil => rfl
  | cons c s ih =>
      have hcut := pieces_append_cons [] (s ++ v) (hs c List.mem_cons_self)
      rw [pieces_nil, List.nil_append, List.nil_append] at hcut
      rw [List.cons_append, hcut, ih fun x hx => hs x (List.mem_cons_of_mem c hx)]

theorem pieces_append_run (hs : ∀ c ∈ s, isCut c = true) (hne : s ≠ []) (u v : List Char) :
    pieces isCut (u ++ s ++ v) = pieces isCut u ++ pieces isCut v := by
  cases s with
  | nil => exact absurd rfl hne
  | cons c s =>
      rw [List.append_assoc, List.cons_append, pieces_append_cons u (s ++ v) (hs c List.mem_cons_self),
        pieces_cuts_append fun x hx => hs x (List.mem_cons_of_mem c hx)]

theorem pieces_append_cuts (hs : ∀ c ∈ s, isCut c = true) (u : List Char) :
    pieces isCut (u ++ s) = pieces isCut u := by
  by_cases hne : s = []
  · rw [hne, List.append_nil]
  · have hrun := pieces_append_run hs hne u []
    rwa [pieces_nil, List.append_nil, List.append_nil] at hrun

theorem pieces_withoutReturn (hreturn : isCut '\r' = true) (line : List Char) :
    pieces isCut (withoutReturn line) = pieces isCut line := by
  rw [withoutReturn]
  split
  · rename_i hlast
    obtain ⟨kept, rfl⟩ := List.getLast?_eq_some_iff.1 hlast
    have hcuts : ∀ c ∈ ['\r'], isCut c = true := by
      intro c hc
      rw [List.mem_singleton.1 hc, hreturn]
    rw [List.dropLast_concat, pieces_append_cuts hcuts]
  · rfl

theorem filter_pieces_endedLines (hreturn : isCut '\r' = true) (ls : List (List Char)) :
    ((endedLines ls).map (pieces isCut)).filter (!·.isEmpty) =
      (ls.map (pieces isCut)).filter (!·.isEmpty) := by
  fun_induction endedLines ls with
  | case1 => rfl
  | case2 last hempty =>
      rw [List.isEmpty_iff.1 hempty]
      rfl
  | case3 last hfilled => rfl
  | case4 line next rest ih =>
      rw [List.map_cons, List.map_cons, List.filter_cons, List.filter_cons, ih,
        pieces_withoutReturn hreturn line]

/-- The last newline and the carriage returns at the ends of lines leave no trace in the pieces. -/
theorem filter_pieces_lines (hreturn : isCut '\r' = true) (cs : List Char) :
    ((lines cs).map (pieces isCut)).filter (!·.isEmpty) =
      ((cs.splitOnP (· == '\n')).map (pieces isCut)).filter (!·.isEmpty) :=
  filter_pieces_endedLines hreturn _

end DeskCalc.Text
