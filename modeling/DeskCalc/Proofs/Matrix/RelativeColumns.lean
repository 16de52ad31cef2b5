import DeskCalc.Proofs.Matrix.RowOperations
import DeskCalc.Proofs.Matrix.Turns
import Mathlib.Algebra.BigOperators.Field
import Mathlib.Algebra.BigOperators.Fin
import Mathlib.Analysis.Real.Sqrt

/-!
What the singular values are taken from: the columns of the tall one of a matrix and its transpose, relative to the
largest entry. There are as many of them as the smaller one of the two sizes, and as many singular values. In exact
arithmetic squared norms and products of columns are sums over their entries, and the largest entry is what its
name says.
-/

namespace DeskCalc

/-- The real numbers, with the step of doubles. -/
noncomputable instance spectralReal : Spectral ℝ where
  sqrt := Real.sqrt
  signum x := if x < 0 then -1 else 1
  epsilon := 2⁻¹ ^ 52

namespace Grid

variable {α : Type} {n m : Nat}

/-- The lengths of the columns in decreasing order. -/
def lengths [OfNat α 0] [Add α] [Mul α] [LE α] [DecidableLE α] [Spectral α] (columns : Grid α m n) : List α :=
  (columns.toList.map fun v => Spectral.sqrt (normSquared v)).mergeSort fun a b => b ≤ a

@[simp] theorem length_lengths [OfNat α 0] [Add α] [Mul α] [LE α] [DecidableLE α] [Spectral α]
    (columns : Grid α m n) : columns.lengths.length = m := by
  rw [lengths, List.length_mergeSort, List.length_map, Vector.length_toList]

/-- The columns divided by their largest entry. -/
def relative [OfNat α 0] [Div α] [Neg α] [LT α] [DecidableLT α] (columns : Grid α m n) : Grid α m n :=
  Vector.map (fun v => Vector.map (· / columns.largest) v) columns

theorem entry_relative [OfNat α 0] [Div α] [Neg α] [LT α] [DecidableLT α] (columns : Grid α m n) (j : Fin m)
    (i : Fin n) : columns.relative.entry j i = columns.entry j i / columns.largest := by
  simp [relative, entry, get_eq_getElem]

section Values

variable [OfNat α 0] [OfNat α 1] [OfNat α 2] [Add α] [Sub α] [Mul α] [Div α] [Neg α] [BEq α] [LT α]
  [DecidableLT α] [LE α] [DecidableLE α] [Spectral α]

theorem singularValues_eq (columns : Grid α m n) :
    columns.singularValues =
      if columns.largest == 0 then List.replicate m 0 else (sweeps sweepLimit columns.relative).lengths := rfl

@[simp] theorem length_singularValues (columns : Grid α m n) : columns.singularValues.length = m := by
  rw [singularValues_eq]
  split
  · exact List.length_replicate
  · exact length_lengths _

theorem singularValues_resize {n' m' : Nat} (hm : m = m') (hn : n = n') (columns : Grid α m n) :
    (columns.resize hm hn).singularValues = columns.singularValues := by
  subst hm hn
  rfl

end Values

theorem forall_entry_resize_iff {n' m' : Nat} (hm : m = m') (hn : n = n') {columns : Grid α m n} {p : α → Prop} :
    (∀ j i, p ((columns.resize hm hn).entry j i)) ↔ ∀ j i, p (columns.entry j i) := by
  subst hm hn
  rfl

/-! ### Exact arithmetic -/

theorem toList_eq_map_get (v : Vector α n) : v.toList = (List.finRange n).map v.get := by
  apply List.ext_getElem
  · simp
  · intro i _ _
    simp [get_eq_getElem]

section Sum

variable {K : Type} [Field K]

theorem foldl_add (v : Vector K n) : v.foldl (· + ·) 0 = ∑ i, v.get i := by
  rw [← Vector.foldl_toList, ← List.sum_eq_foldl, Fin.sum_univ_def, toList_eq_map_get]

theorem dot_eq_sum (u v : Vector K n) : dot u v = ∑ i, u.get i * v.get i := by
  rw [dot, foldl_add]
  simp [get_eq_getElem]

theorem normSquared_eq_sum (v : Vector K n) : normSquared v = ∑ i, v.get i * v.get i := by
  have hfold : normSquared v = (v.map fun x => x * x).foldl (· + ·) 0 := Vector.foldl_map.symm
  rw [hfold, foldl_add]
  simp [get_eq_getElem]

end Sum

section Largest

theorem larger_eq_max {K : Type} [LinearOrder K] (x y : K) : larger x y = max x y := by
  unfold larger
  split
  next h => exact (max_eq_right h.le).symm
  next h => exact (max_eq_left (not_lt.1 h)).symm

variable {K : Type} [Field K] [LinearOrder K] [IsStrictOrderedRing K]

/-- The search for the largest entry, over all entries in one list. -/
theorem largest_eq_foldl (columns : Grid K m n) :
    columns.largest = columns.toRows.flatten.foldl (fun acc x => max acc |x|) 0 := by
  have hstep : (fun (acc x : K) => larger acc (magnitude x)) = fun acc x => max acc |x| := by
    funext acc x
    rw [larger_eq_max, magnitude_eq_abs]
  rw [List.foldl_flatten, toRows, List.foldl_map, ← hstep, largest, ← Vector.foldl_toList]
  simp only [Vector.foldl_toList]

omit [IsStrictOrderedRing K] in
theorem foldl_max_abs_spec (xs : List K) (start : K) :
    start ≤ xs.foldl (fun acc x => max acc |x|) start ∧
      (∀ x ∈ xs, |x| ≤ xs.foldl (fun acc x => max acc |x|) start) ∧
      (xs.foldl (fun acc x => max acc |x|) start = start ∨
        ∃ x ∈ xs, |x| = xs.foldl (fun acc x => max acc |x|) start) := by
  induction xs generalizing start with
  | nil => simp
  | cons y ys ih =>
      obtain ⟨hstart, hall, hreached⟩ := ih (max start |y|)
      rw [List.foldl_cons]
      refine ⟨(le_max_left _ _).trans hstart, ?_, ?_⟩
      · intro x hx
        rcases List.mem_cons.1 hx with rfl | hx
        · exact (le_max_right _ _).trans hstart
        · exact hall x hx
      · rcases hreached with heq | ⟨x, hx, heq⟩
        · rw [heq]
          rcases max_choice start |y| with hmax | hmax
          · exact .inl hmax
          · exact .inr ⟨y, List.mem_cons_self, hmax.symm⟩
        · exact .inr ⟨x, List.mem_cons_of_mem y hx, heq⟩

/-- No entry is larger in magnitude, and if it is not zero it is the magnitude of an entry. -/
theorem largest_spec (columns : Grid K m n) :
    (∀ j i, |columns.entry j i| ≤ columns.largest) ∧
      (columns.largest ≠ 0 → ∃ j i, |columns.entry j i| = columns.largest) := by
  obtain ⟨-, hall, hreached⟩ := foldl_max_abs_spec columns.toRows.flatten 0
  rw [← largest_eq_foldl] at hall hreached
  constructor
  · refine (forall_mem_toRows_iff (p := fun x => |x| ≤ columns.largest)).1 fun row hrow x hx => ?_
    exact hall x (List.mem_flatten.2 ⟨row, hrow, hx⟩)
  · intro hne
    obtain ⟨x, hx, heq⟩ := hreached.resolve_left hne
    obtain ⟨row, hrow, hx⟩ := List.mem_flatten.1 hx
    by_contra hnone
    push Not at hnone
    exact (forall_mem_toRows_iff (p := fun x => |x| ≠ columns.largest)).2 hnone row hrow x hx heq

end Largest

end Grid

namespace DenseMatrix

variable {α : Type}

/-- The columns of the tall one of a matrix and its transpose. -/
def tallColumns (a : DenseMatrix α) : Grid α (min a.rows a.columns) (max a.rows a.columns) :=
  if h : a.columns ≤ a.rows then
    a.entries.transpose.resize (min_eq_right h).symm (max_eq_left h).symm
  else
    a.entries.resize (min_eq_left (le_of_not_ge h)).symm (max_eq_right (le_of_not_ge h)).symm

theorem forall_entry_tallColumns_iff {a : DenseMatrix α} {p : α → Prop} :
    (∀ j i, p (a.tallColumns.entry j i)) ↔ ∀ i j, p (a.entries.entry i j) := by
  unfold tallColumns
  split
  · rw [Grid.forall_entry_resize_iff, forall_comm]
    simp only [Grid.entry_transpose]
  · exact Grid.forall_entry_resize_iff _ _

section Values

variable [OfNat α 0] [OfNat α 1] [OfNat α 2] [Add α] [Sub α] [Mul α] [Div α] [Neg α] [BEq α] [LT α]
  [DecidableLT α] [LE α] [DecidableLE α] [Spectral α]

theorem singularValues_eq (a : DenseMatrix α) : a.singularValues = a.tallColumns.singularValues := by
  unfold singularValues tallColumns
  split
  · exact (Grid.singularValues_resize _ _ _).symm
  · exact (Grid.singularValues_resize _ _ _).symm

@[simp] theorem length_singularValues (a : DenseMatrix α) :
    a.singularValues.length = min a.rows a.columns := by
  rw [singularValues_eq, Grid.length_singularValues]

end Values

end DenseMatrix

end DeskCalc
