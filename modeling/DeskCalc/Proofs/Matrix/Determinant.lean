import DeskCalc.Proofs.Matrix.RowOperations

/-!
The determinant by elimination. After `k` steps the grid is triangular in its first `k` columns, and the
product of the pivots so far stands to the determinant of the present grid as the determinant of the
original one stands to the product of the diagonal entries so far. A step without a pivot leaves too many
zeros for a determinant other than zero. The main statement is that in exact arithmetic the determinant
that is computed is the signed sum over all permutations.
-/

namespace DeskCalc

namespace Grid

variable {K : Type} [Field K] {n : Nat}

theorem det_swapRows (g : Grid K n n) (p k : Fin n) :
    (g.swapRows p k).toMatrix.det = if p = k then g.toMatrix.det else -g.toMatrix.det := by
  rw [toMatrix_swapRows, Matrix.det_permute]
  split
  · rename_i h
    simp [h]
  · rename_i h
    simp [Equiv.Perm.sign_swap h]

/-- Taking multiples of row `k` from the rows below keeps the determinant, if row `k` starts at column
`k`. -/
theorem det_clearBelow [BEq K] [LawfulBEq K] (g : Grid K n n) (k : Fin n)
    (hrow : ∀ j, j < k → g.entry k j = 0) : (g.clearBelow k).toMatrix.det = g.toMatrix.det := by
  refine Matrix.det_eq_of_forall_row_eq_smul_add_const
    (fun i => if k < i then -(g.entry i k / g.entry k k) else 0) k (if_neg (lt_irrefl k)) ?_
  intro i j
  rw [toMatrix_apply, toMatrix_apply, toMatrix_apply, entry_clearBelow]
  by_cases hi : k < i
  · by_cases hj : k ≤ j
    · rw [if_pos ⟨hi, hj⟩, if_pos hi]
      ring
    · rw [if_neg fun h => hj h.2, hrow j (not_le.mp hj), mul_zero, add_zero]
  · rw [if_neg fun h => hi h.1, if_neg hi, zero_mul, add_zero]

end Grid

/-- The first `k` places of a diagonal. -/
def firstPlaces (n k : Nat) : Finset (Fin n) := Finset.univ.filter fun i => i.val < k

@[simp] theorem mem_firstPlaces {n k : Nat} {i : Fin n} : i ∈ firstPlaces n k ↔ i.val < k := by
  simp [firstPlaces]

theorem firstPlaces_succ {n : Nat} (k : Fin n) : firstPlaces n (k + 1) = insert k (firstPlaces n k) := by
  ext i
  simp only [mem_firstPlaces, Finset.mem_insert, Fin.ext_iff]
  omega

theorem firstPlaces_self (n : Nat) : firstPlaces n n = Finset.univ := by
  ext i
  simp

namespace Triangulation

variable {K : Type} [Field K] {n : Nat}

/-- What `k` steps of the elimination of `g` have reached. -/
structure Reached (g : Grid K n n) (k : Nat) (s : Triangulation K n) : Prop where
  cleared : ∀ i j : Fin n, j.val < k → j < i → s.grid.entry i j = 0
  pivot_ne_zero : ∀ i : Fin n, i.val < k → s.grid.entry i i ≠ 0
  det_eq : g.toMatrix.det * ∏ i ∈ firstPlaces n k, s.grid.entry i i = s.product * s.grid.toMatrix.det

theorem reached_zero (g : Grid K n n) : Reached g 0 ⟨g, 1⟩ where
  cleared i j hj := absurd hj (Nat.not_lt_zero _)
  pivot_ne_zero i hi := absurd hi (Nat.not_lt_zero _)
  det_eq := by simp [firstPlaces]

variable [LinearOrder K] [BEq K] [LawfulBEq K]

/-- What a step does: the pivot row comes onto the diagonal, and the pivot into the product. -/
theorem eq_of_step? {s s' : Triangulation K n} {k : Fin n} (h : s.step? k = some s') :
    s.grid.entry (s.grid.pivotRow k k) k ≠ 0 ∧
      s' = ⟨(s.grid.swapRows (s.grid.pivotRow k k) k).clearBelow k,
        (if s.grid.pivotRow k k = k then s.product else -s.product) *
          s.grid.entry (s.grid.pivotRow k k) k⟩ := by
  simp only [step?] at h
  split at h
  · cases h
  · rename_i hpivot
    refine ⟨fun hzero => hpivot (beq_iff_eq.mpr hzero), ?_⟩
    rw [Grid.entry_swapRows_swap, Equiv.swap_apply_right] at h
    exact (Option.some.inj h).symm

theorem pivot_eq_zero_of_step? {s : Triangulation K n} {k : Fin n} (h : s.step? k = none) :
    s.grid.entry (s.grid.pivotRow k k) k = 0 := by
  simp only [step?] at h
  split at h
  · rename_i hpivot
    exact beq_iff_eq.mp hpivot
  · cases h

variable [IsStrictOrderedRing K]

theorem Reached.step {g : Grid K n n} {k : Fin n} {s s' : Triangulation K n} (hs : Reached g k s)
    (hstep : s.step? k = some s') : Reached g (k + 1) s' := by
  obtain ⟨hpivot, rfl⟩ := eq_of_step? hstep
  have hkp := s.grid.le_pivotRow k k
  set p := s.grid.pivotRow k k
  set swapped := s.grid.swapRows p k with hswapped
  have habove : ∀ i j, i < k → swapped.entry i j = s.grid.entry i j := by
    intro i j hi
    rw [hswapped, Grid.entry_swapRows_swap, swap_of_lt hkp hi]
  have hdiagonal : swapped.entry k k = s.grid.entry p k := by
    rw [hswapped, Grid.entry_swapRows_swap, Equiv.swap_apply_right]
  have hcleared : ∀ i j, j < k → j < i → swapped.entry i j = 0 := by
    intro i j hj hij
    rw [hswapped, Grid.entry_swapRows_swap]
    refine hs.cleared _ j hj ?_
    by_cases hi : i < k
    · rwa [swap_of_lt hkp hi]
    · exact hj.trans_le (le_swap hkp (not_lt.mp hi))
  have hkept : ∀ i, i ≤ k → (swapped.clearBelow k).entry i i = swapped.entry i i := by
    intro i hi
    rw [Grid.entry_clearBelow, if_neg fun h => absurd h.1 hi.not_gt]
  constructor
  · intro i j hj hij
    rw [Grid.entry_clearBelow]
    rcases (Nat.le_of_lt_succ hj).lt_or_eq with hlt | heq
    · rw [if_neg fun h => absurd h.2 (not_le.mpr hlt), hcleared i j hlt hij]
    · obtain rfl := Fin.ext heq
      rw [if_pos ⟨hij, le_rfl⟩, hdiagonal, div_mul_cancel₀ _ hpivot, sub_self]
  · intro i hi
    rw [hkept i (Nat.le_of_lt_succ hi)]
    rcases (Nat.le_of_lt_succ hi).lt_or_eq with hlt | heq
    · rw [habove i i hlt]
      exact hs.pivot_ne_zero i hlt
    · obtain rfl := Fin.ext heq
      rwa [hdiagonal]
  · have hfirst : ∏ i ∈ firstPlaces n k, (swapped.clearBelow k).entry i i =
        ∏ i ∈ firstPlaces n k, s.grid.entry i i := by
      refine Finset.prod_congr rfl fun i hi => ?_
      have hlt : i < k := mem_firstPlaces.mp hi
      rw [hkept i hlt.le, habove i i hlt]
    have hdet : (swapped.clearBelow k).toMatrix.det =
        if p = k then s.grid.toMatrix.det else -s.grid.toMatrix.det := by
      rw [Grid.det_clearBelow swapped k fun j hj => hcleared k j hj hj, hswapped, Grid.det_swapRows]
    rw [firstPlaces_succ, Finset.prod_insert (by simp), hfirst, hkept k le_rfl, hdiagonal, hdet]
    calc g.toMatrix.det * (s.grid.entry p k * ∏ i ∈ firstPlaces n k, s.grid.entry i i)
        = s.grid.entry p k * (g.toMatrix.det * ∏ i ∈ firstPlaces n k, s.grid.entry i i) := by ring
      _ = s.grid.entry p k * (s.product * s.grid.toMatrix.det) := by rw [hs.det_eq]
      _ = _ := by split <;> ring

/-- Without a pivot the determinant is zero. -/
theorem Reached.det_eq_zero {g : Grid K n n} {k : Fin n} {s : Triangulation K n} (hs : Reached g k s)
    (hstep : s.step? k = none) : g.toMatrix.det = 0 := by
  have hblock : ∀ i j, k ≤ i → j ≤ k → s.grid.toMatrix i j = 0 := by
    intro i j hi hj
    rcases hj.lt_or_eq with hlt | rfl
    · exact hs.cleared i j hlt (hlt.trans_le hi)
    · exact s.grid.entry_eq_zero_of_pivot j j (pivot_eq_zero_of_step? hstep) hi
  have hdet := hs.det_eq
  rw [det_eq_zero_of_block _ k hblock, mul_zero] at hdet
  refine (mul_eq_zero.mp hdet).resolve_right ?_
  exact Finset.prod_ne_zero_iff.mpr fun i hi => hs.pivot_ne_zero i (mem_firstPlaces.mp hi)

theorem reached_after (g : Grid K n n) {k : Nat} (hk : k ≤ n) :
    (∀ s, after g k hk = some s → Reached g k s) ∧ (after g k hk = none → g.toMatrix.det = 0) :=
  holds_after rfl (fun _ _ => rfl) (reached_zero g) (fun _ _ _ hs hstep => hs.step hstep)
    (fun _ _ hs hstep => hs.det_eq_zero hstep) hk

end Triangulation

namespace Grid

variable {K : Type} [Field K] [LinearOrder K] [IsStrictOrderedRing K] [BEq K] [LawfulBEq K] {n : Nat}

/-- In exact arithmetic elimination computes the determinant. -/
theorem determinant_eq_det (g : Grid K n n) : g.determinant = g.toMatrix.det := by
  obtain ⟨hreached, hfailed⟩ := Triangulation.reached_after g (Nat.le_refl n)
  rw [determinant]
  cases hafter : Triangulation.after g n (Nat.le_refl n) with
  | none => exact (hfailed hafter).symm
  | some s =>
      have hs := hreached s hafter
      have htriangular : s.grid.toMatrix.BlockTriangular id :=
        fun i j hij => hs.cleared i j j.isLt hij
      have hpivots : ∏ i, s.grid.entry i i ≠ 0 :=
        Finset.prod_ne_zero_iff.mpr fun i _ => hs.pivot_ne_zero i i.isLt
      have hdet := hs.det_eq
      rw [firstPlaces_self, Matrix.det_of_isUpperTriangular htriangular] at hdet
      exact (mul_right_cancel₀ hpivots hdet).symm

end Grid

namespace DenseMatrix

/-- Over the rationals every square matrix gets its determinant, and no other matrix gets any. -/
theorem determinant?_eq_det (a : DenseMatrix ℚ) :
    (∀ h : a.columns = a.rows,
      a.determinant? = some (Matrix.det fun i j => a.entries.entry i (j.cast h.symm))) ∧
    (a.determinant? = none ↔ a.columns ≠ a.rows) := by
  obtain ⟨rows, columns, entries, hrows, hcolumns⟩ := a
  by_cases h : columns = rows
  · subst h
    have hdet := entries.determinant_eq_det
    simp [determinant?, square?, hdet, Grid.toMatrix]
  · simp [determinant?, square?, h]

/-- Two exchanges of rows restore the sign. -/
theorem determinant?_eq_thirty :
    determinant? (⟨3, 3, Grid.ofFn ![![0, 2, 1], ![0, 0, 5], ![3, 1, 1]], by decide, by decide⟩ :
      DenseMatrix ℚ) = some 30 := by
  refine ((determinant?_eq_det _).1 rfl).trans (congrArg some ?_)
  refine (Matrix.det_fin_three _).trans ?_
  show (0 : ℚ) * 0 * 1 - 0 * 5 * 1 - 2 * 0 * 1 + 2 * 5 * 3 + 1 * 0 * 1 - 1 * 0 * 3 = 30
  norm_num

end DenseMatrix

end DeskCalc
