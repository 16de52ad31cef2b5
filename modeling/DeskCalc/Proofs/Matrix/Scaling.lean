import DeskCalc.Proofs.Matrix.Product
import DeskCalc.Proofs.Matrix.RelativeColumns

/-!
The rank of a multiple. Relative to the largest entry a matrix and its multiple are equal up to one sign, and a sign
that all columns have in common changes no squared norm and no product of two columns. So the passes make the same
turns for both, come to the same columns up to this sign, and lead to the same singular values and to the same rank.
Square roots and signs need not be what their names say: no law of them is used.
-/

namespace DeskCalc

namespace Grid

section Scaled

variable {α : Type} [Mul α] {n m : Nat}

/-- Every entry multiplied by `c`. -/
def scaled (c : α) (g : Grid α n m) : Grid α n m := Vector.map (fun v => Vector.map (c * ·) v) g

@[simp] theorem get_scaled (c : α) (g : Grid α n m) (i : Fin n) : (g.scaled c).get i = (g.get i).map (c * ·) := by
  simp [scaled, get_eq_getElem]

@[simp] theorem entry_scaled (c : α) (g : Grid α n m) (i : Fin n) (j : Fin m) :
    (g.scaled c).entry i j = c * g.entry i j := by
  rw [entry, get_scaled, get_eq_getElem, Vector.getElem_map]
  rfl

theorem toRows_scaled (c : α) (g : Grid α n m) : (g.scaled c).toRows = g.toRows.map (·.map (c * ·)) := by
  simp [toRows, scaled, Vector.toList_map]

theorem transpose_scaled (c : α) (g : Grid α n m) : (g.scaled c).transpose = g.transpose.scaled c := by
  ext j i
  simp

theorem resize_scaled {n' m' : Nat} (hn : n = n') (hm : m = m') (c : α) (g : Grid α n m) :
    (g.scaled c).resize hn hm = (g.resize hn hm).scaled c := by
  subst hn hm
  rfl

end Scaled

section Turns

variable {K : Type} [Field K] {n m : Nat} {σ : K}

theorem apply_scaled (σ : K) (t : Turn K m) (columns : Grid K m n) :
    t.apply (columns.scaled σ) = (t.apply columns).scaled σ := by
  ext j i
  simp only [Turn.entry_apply, entry_scaled]
  split
  · ring
  split
  · ring
  · rfl

theorem replay_scaled (σ : K) (ts : List (Turn K m)) (columns : Grid K m n) :
    Turn.replay ts (columns.scaled σ) = (Turn.replay ts columns).scaled σ := by
  induction ts generalizing columns with
  | nil => rfl
  | cons t ts ih => rw [Turn.replay_cons, apply_scaled, ih, Turn.replay_cons]

section Sign

variable (hσ : σ * σ = 1)
include hσ

theorem dot_scaled (u v : Vector K n) : dot (u.map (σ * ·)) (v.map (σ * ·)) = dot u v := by
  rw [dot_eq_sum, dot_eq_sum]
  refine Finset.sum_congr rfl fun i _ => ?_
  simp only [get_eq_getElem, Vector.getElem_map]
  rw [mul_mul_mul_comm, hσ, one_mul]

theorem normSquared_scaled (v : Vector K n) : normSquared (v.map (σ * ·)) = normSquared v := by
  have hdot : ∀ w : Vector K n, normSquared w = dot w w := fun w => by rw [normSquared_eq_sum, dot_eq_sum]
  rw [hdot, hdot, dot_scaled hσ]

theorem lengths_scaled [LinearOrder K] [Spectral K] (columns : Grid K m n) :
    (columns.scaled σ).lengths = columns.lengths := by
  have hmap : (columns.scaled σ).toList = columns.toList.map fun v => v.map (σ * ·) := Vector.toList_map
  simp only [lengths, hmap, List.map_map, Function.comp_def, normSquared_scaled hσ]

variable [LinearOrder K] [BEq K] [Spectral K]

theorem turn?_scaled (columns : Grid K m n) (p q : Fin m) : (columns.scaled σ).turn? p q = columns.turn? p q := by
  simp only [turn?, get_scaled, normSquared_scaled hσ, dot_scaled hσ]

theorem turnsAlong_scaled (ps : List (Fin m × Fin m)) (columns : Grid K m n) :
    (columns.scaled σ).turnsAlong ps = columns.turnsAlong ps := by
  induction ps generalizing columns with
  | nil => rfl
  | cons pair rest ih =>
      rw [turnsAlong, turnsAlong, turn?_scaled hσ]
      cases columns.turn? pair.1 pair.2 with
      | none => exact ih columns
      | some t =>
          simp only [apply_scaled]
          rw [ih]

/-- A common sign changes no turn, and no pass ends the run earlier or later. -/
theorem turns_scaled (count : Nat) (columns : Grid K m n) : (columns.scaled σ).turns count = columns.turns count := by
  induction count generalizing columns with
  | zero => rfl
  | succ count ih => simp only [turns, turnsAlong_scaled hσ, replay_scaled, ih]

theorem sweeps_scaled (count : Nat) (columns : Grid K m n) :
    sweeps count (columns.scaled σ) = (sweeps count columns).scaled σ := by
  rw [sweeps_eq_replay, sweeps_eq_replay, turns_scaled hσ, replay_scaled]

end Sign

end Turns

section Relative

variable {K : Type} [Field K] [LinearOrder K] {n m : Nat} {c : K}

theorem div_abs_cases (hc : c ≠ 0) : c / |c| = 1 ∨ c / |c| = -1 := by
  rcases abs_choice c with h | h
  · exact .inl (by rw [h, div_self hc])
  · exact .inr (by rw [h, div_neg, div_self hc])

theorem div_abs_mul_self (hc : c ≠ 0) : c / |c| * (c / |c|) = 1 := by
  rcases div_abs_cases hc with h | h
  · rw [h, one_mul]
  · rw [h, neg_mul_neg, one_mul]

variable [IsStrictOrderedRing K]

theorem largest_scaled (c : K) (columns : Grid K m n) : (columns.scaled c).largest = |c| * columns.largest := by
  have hstep : ∀ acc x : K, max (|c| * acc) |c * x| = |c| * max acc |x| := by
    intro acc x
    rw [abs_mul, mul_max_of_nonneg _ _ (abs_nonneg c)]
  rw [largest_eq_foldl, largest_eq_foldl, toRows_scaled, ← List.map_flatten, List.foldl_map]
  conv_lhs => rw [← mul_zero |c|]
  exact List.foldl_hom (|c| * ·) hstep

/-- Relative to the largest entry only the sign of a factor is left. -/
theorem relative_scaled (c : K) (columns : Grid K m n) :
    (columns.scaled c).relative = columns.relative.scaled (c / |c|) := by
  ext j i
  rw [entry_relative, entry_scaled, largest_scaled, entry_scaled, entry_relative, mul_div_mul_comm]

theorem singularValues_scaled [BEq K] [LawfulBEq K] [Spectral K] (hc : c ≠ 0) (columns : Grid K m n) :
    (columns.scaled c).singularValues = columns.singularValues := by
  have hzero : (|c| * columns.largest == 0) = (columns.largest == 0) := by
    rw [Bool.eq_iff_iff, beq_iff_eq, beq_iff_eq, mul_eq_zero, or_iff_right (abs_ne_zero.2 hc)]
  have hsign := div_abs_mul_self hc
  rw [singularValues_eq, singularValues_eq, largest_scaled, hzero, relative_scaled, sweeps_scaled hsign,
    lengths_scaled hsign]

end Relative

end Grid

namespace DenseMatrix

section Scaled

variable {α : Type} [Mul α]

/-- The matrix multiplied by `c`. -/
def scaled (c : α) (a : DenseMatrix α) : DenseMatrix α := { a with entries := a.entries.scaled c }

theorem tallColumns_scaled (c : α) (a : DenseMatrix α) : (a.scaled c).tallColumns = a.tallColumns.scaled c := by
  unfold tallColumns
  by_cases h : a.columns ≤ a.rows
  · rw [dif_pos h, dif_pos (show (a.scaled c).columns ≤ (a.scaled c).rows from h)]
    rw [← Grid.resize_scaled, ← Grid.transpose_scaled]
    rfl
  · rw [dif_neg h, dif_neg (show ¬(a.scaled c).columns ≤ (a.scaled c).rows from h)]
    rw [← Grid.resize_scaled]
    rfl

end Scaled

section Rank

variable {K : Type} [Field K] [LinearOrder K] [BEq K] [Spectral K] {a b : DenseMatrix K}

theorem rank_congr (hvalues : a.singularValues = b.singularValues)
    (hsize : max a.rows a.columns = max b.rows b.columns) : a.rank = b.rank := by
  rw [rank, rank, hvalues, hsize]

theorem rank_le (a : DenseMatrix K) : a.rank ≤ min a.rows a.columns := by
  rw [← a.length_singularValues]
  exact List.countP_le_length

/-- A matrix that is not square and its transpose have the same tall columns. -/
theorem rank_transpose (h : a.rows ≠ a.columns) : a.transpose.rank = a.rank := by
  apply rank_congr
  · rcases Nat.lt_or_gt_of_ne h with hlt | hlt
    · rw [singularValues, if_pos (show a.transpose.columns ≤ a.transpose.rows from hlt.le), singularValues,
        if_neg (Nat.not_le.2 hlt), transpose, Grid.transpose_transpose]
    · rw [singularValues, if_neg (show ¬a.transpose.columns ≤ a.transpose.rows from Nat.not_le.2 hlt),
        singularValues, if_pos hlt.le]
      rfl
  · exact max_comm _ _

variable [IsStrictOrderedRing K] [LawfulBEq K]

theorem singularValues_scaled {c : K} (hc : c ≠ 0) (a : DenseMatrix K) :
    (a.scaled c).singularValues = a.singularValues := by
  rw [singularValues_eq, tallColumns_scaled, singularValues_eq]
  exact Grid.singularValues_scaled hc a.tallColumns

/-- A multiple of a matrix has the same rank, which is at most its smaller size, and so has its transpose if it is not
square. A run is what its turns make of the columns; the run for the multiple makes the same turns in the same passes,
and at each point of it the columns are those of the run for the matrix up to one sign. -/
theorem rank_scaled (a : DenseMatrix K) (c : K) (hc : c ≠ 0) :
    (a.scaled c).rank = a.rank ∧ a.rank ≤ min a.rows a.columns ∧
    (a.rows ≠ a.columns → a.transpose.rank = a.rank) ∧
    ∃ σ : K, (σ = 1 ∨ σ = -1) ∧ ∀ count,
      Grid.sweeps count a.tallColumns.relative =
        Turn.replay (a.tallColumns.relative.turns count).flatten a.tallColumns.relative ∧
      (a.scaled c).tallColumns.relative.turns count = a.tallColumns.relative.turns count ∧
      (∀ done, done <+: (a.tallColumns.relative.turns count).flatten →
        Turn.replay done (a.scaled c).tallColumns.relative =
          (Turn.replay done a.tallColumns.relative).scaled σ) ∧
      Grid.sweeps count (a.scaled c).tallColumns.relative =
        (Grid.sweeps count a.tallColumns.relative).scaled σ := by
  have hrelative : (a.scaled c).tallColumns.relative = a.tallColumns.relative.scaled (c / |c|) := by
    rw [tallColumns_scaled]
    exact Grid.relative_scaled c a.tallColumns
  have hsign := Grid.div_abs_mul_self hc
  refine ⟨rank_congr (singularValues_scaled hc a) rfl, a.rank_le, rank_transpose, c / |c|, Grid.div_abs_cases hc, ?_⟩
  intro count
  rw [hrelative]
  refine ⟨Grid.sweeps_eq_replay count _, Grid.turns_scaled hsign count _, ?_, Grid.sweeps_scaled hsign count _⟩
  intro done _
  exact Grid.replay_scaled _ done _

/-- A negative factor, and a matrix that is wider than high. -/
theorem rank_scaled_of_negative :
    (scaled (-2 : ℝ) ⟨2, 3, Grid.ofFn ![![1, 2, 0], ![0, 0, 3]], by decide, by decide⟩).rank =
        rank (⟨2, 3, Grid.ofFn ![![1, 2, 0], ![0, 0, 3]], by decide, by decide⟩ : DenseMatrix ℝ) ∧
      rank (⟨2, 3, Grid.ofFn ![![1, 2, 0], ![0, 0, 3]], by decide, by decide⟩ : DenseMatrix ℝ) ≤ 2 ∧
      (transpose (⟨2, 3, Grid.ofFn ![![1, 2, 0], ![0, 0, 3]], by decide, by decide⟩ : DenseMatrix ℝ)).rank =
        rank (⟨2, 3, Grid.ofFn ![![1, 2, 0], ![0, 0, 3]], by decide, by decide⟩ : DenseMatrix ℝ) := by
  have hrank := rank_scaled (⟨2, 3, Grid.ofFn ![![1, 2, 0], ![0, 0, 3]], by decide, by decide⟩ : DenseMatrix ℝ)
    (-2) (by norm_num)
  exact ⟨hrank.1, hrank.2.1, hrank.2.2.1 (by decide)⟩

end Rank

end DenseMatrix

end DeskCalc
