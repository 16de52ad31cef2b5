import DeskCalc.Matrix.Inverse
import DeskCalc.Operation.Apply
import DeskCalc.Proofs.Matrix.Determinant
import DeskCalc.Proofs.Matrix.Product
import Mathlib.Algebra.BigOperators.Field

/-!
The inverse by elimination. After `k` steps the left grid has its first `k` columns in common with the
identity, it is the product of the right grid with the original one, and the right grid is regular. A step
without a pivot therefore shows that the original grid is singular, and after the last step the right grid
is its inverse. The main statement is that in exact arithmetic there is an inverse exactly if the
determinant, which is computed by another elimination, is not zero.
-/

namespace DeskCalc

section Cleared

variable {K : Type} [Field K] {n : Nat}

/-- Row `k` divided by the pivot, and a multiple of it taken from every other row. -/
def clearedBy (factor : Fin n → K) (pivot : K) (k : Fin n) (M : Matrix (Fin n) (Fin n) K) :
    Matrix (Fin n) (Fin n) K :=
  fun i j => if i = k then M k j / pivot else M i j - factor i * (M k j / pivot)

theorem clearedBy_mul (factor : Fin n → K) (pivot : K) (k : Fin n) (M A : Matrix (Fin n) (Fin n) K) :
    clearedBy factor pivot k M * A = clearedBy factor pivot k (M * A) := by
  ext i j
  simp only [clearedBy, Matrix.mul_apply]
  by_cases hi : i = k
  · simp only [if_pos hi, Finset.sum_div, div_mul_eq_mul_div]
  · simp only [if_neg hi, sub_mul, Finset.sum_sub_distrib, Finset.sum_div, Finset.mul_sum,
      mul_assoc, div_mul_eq_mul_div]

theorem det_clearedBy (factor : Fin n → K) (pivot : K) (k : Fin n) (M : Matrix (Fin n) (Fin n) K) :
    (clearedBy factor pivot k M).det = M.det / pivot := by
  have hscaled : (M.updateRow k (pivot⁻¹ • M k)).det = M.det / pivot := by
    rw [Matrix.det_updateRow_smul, Matrix.updateRow_eq_self, div_eq_inv_mul]
  rw [← hscaled]
  refine Matrix.det_eq_of_forall_row_eq_smul_add_const (fun i => if i = k then 0 else -factor i) k
    (if_pos rfl) ?_
  intro i j
  rw [clearedBy, Matrix.updateRow_self]
  by_cases hi : i = k
  · subst hi
    simp [div_eq_inv_mul]
  · rw [if_neg hi, if_neg hi, Matrix.updateRow_ne hi, Pi.smul_apply, smul_eq_mul, div_eq_inv_mul]
    ring

end Cleared

theorem Grid.toMatrix_identity {K : Type} [Field K] {n : Nat} :
    (Grid.ofFn fun i j => if i = j then 1 else 0 : Grid K n n).toMatrix = 1 := by
  ext i j
  rw [toMatrix_apply, entry_ofFn, Matrix.one_apply]

namespace Augmented

variable {K : Type} [Field K] {n : Nat}

theorem toMatrix_clearOthers [BEq K] [LawfulBEq K] (left rows : Grid K n n) (pivot : K) (k : Fin n) :
    (clearOthers left rows ((rows.get k).map (· / pivot)) k).toMatrix =
      clearedBy (fun i => left.entry i k) pivot k rows.toMatrix := by
  ext i j
  have hrow : (clearOthers left rows ((rows.get k).map (· / pivot)) k).get i =
      if i = k then (rows.get k).map (· / pivot)
      else Grid.reduceRow (rows.get i) ((rows.get k).map (· / pivot)) (left.entry i k) 0 := by
    rw [clearOthers, Grid.get_eq_getElem, Vector.getElem_ofFn]
  have hscaled : ((rows.get k).map (· / pivot)).get j = rows.entry k j / pivot := by
    rw [Grid.get_eq_getElem, Vector.getElem_map]
    rfl
  rw [Grid.toMatrix_apply, Grid.entry, hrow, clearedBy]
  by_cases hi : i = k
  · rw [if_pos hi, if_pos hi, hscaled]
    rfl
  · rw [if_neg hi, if_neg hi, Grid.get_reduceRow, if_pos (Nat.zero_le _), hscaled]
    rfl

/-- What `k` steps for `g` have reached. -/
structure Reached (g : Grid K n n) (k : Nat) (s : Augmented K n) : Prop where
  reduced : ∀ i j : Fin n, j.val < k → s.left.entry i j = if i = j then 1 else 0
  right_mul : s.right.toMatrix * g.toMatrix = s.left.toMatrix
  det_ne_zero : s.right.toMatrix.det ≠ 0

theorem reached_zero (g : Grid K n n) : Reached g 0 ⟨g, Grid.ofFn fun i j => if i = j then 1 else 0⟩ where
  reduced i j hj := absurd hj (Nat.not_lt_zero _)
  right_mul := by
    rw [Grid.toMatrix_identity, one_mul]
  det_ne_zero := by
    rw [Grid.toMatrix_identity, Matrix.det_one]
    exact one_ne_zero

theorem Reached.right_mul_eq_one {g : Grid K n n} {s : Augmented K n} (hs : Reached g n s) :
    s.right.toMatrix * g.toMatrix = 1 := by
  rw [hs.right_mul]
  ext i j
  rw [Grid.toMatrix_apply, hs.reduced i j j.isLt, Matrix.one_apply]

variable [LinearOrder K] [BEq K] [LawfulBEq K]

/-- What a step does: the pivot row comes onto the diagonal of both grids, and column `k` of the left grid
says how it is taken from the other rows of both. -/
theorem toMatrix_of_step? {s s' : Augmented K n} {k : Fin n} (h : s.step? k = some s') :
    s.left.entry (s.left.pivotRow k k) k ≠ 0 ∧
      s'.left.toMatrix = clearedBy (fun i => s.left.entry (Equiv.swap (s.left.pivotRow k k) k i) k)
        (s.left.entry (s.left.pivotRow k k) k) k
        (s.left.toMatrix.submatrix (Equiv.swap (s.left.pivotRow k k) k) id) ∧
      s'.right.toMatrix = clearedBy (fun i => s.left.entry (Equiv.swap (s.left.pivotRow k k) k i) k)
        (s.left.entry (s.left.pivotRow k k) k) k
        (s.right.toMatrix.submatrix (Equiv.swap (s.left.pivotRow k k) k) id) := by
  simp only [step?] at h
  split at h
  · cases h
  · rename_i hpivot
    obtain rfl := Option.some.inj h
    refine ⟨fun hzero => hpivot (beq_iff_eq.mpr hzero), ?_, ?_⟩ <;>
      simp only [toMatrix_clearOthers, Grid.toMatrix_swapRows, Grid.entry_swapRows_swap,
        Equiv.swap_apply_right]

theorem pivot_eq_zero_of_step? {s : Augmented K n} {k : Fin n} (h : s.step? k = none) :
    s.left.entry (s.left.pivotRow k k) k = 0 := by
  simp only [step?] at h
  split at h
  · rename_i hpivot
    exact beq_iff_eq.mp hpivot
  · cases h

variable [IsStrictOrderedRing K]

theorem Reached.step {g : Grid K n n} {k : Fin n} {s s' : Augmented K n} (hs : Reached g k s)
    (hstep : s.step? k = some s') : Reached g (k + 1) s' := by
  obtain ⟨hpivot, hleft, hright⟩ := toMatrix_of_step? hstep
  have hkp := s.left.le_pivotRow k k
  set p := s.left.pivotRow k k
  constructor
  · intro i j hj
    have hentry := congrFun (congrFun hleft i) j
    simp only [clearedBy, Matrix.submatrix_apply, id, Equiv.swap_apply_right, Grid.toMatrix_apply] at hentry
    rw [hentry]
    rcases (Nat.le_of_lt_succ hj).lt_or_eq with hlt | heq
    · have hkj : j < k := hlt
      have hpj : s.left.entry p j = 0 := by
        rw [hs.reduced p j hlt, if_neg (hkj.trans_le hkp).ne']
      have hswap : Equiv.swap p k i = j ↔ i = j := by
        rw [Equiv.swap_apply_eq_iff, swap_of_lt hkp hkj]
      rw [hpj, zero_div, mul_zero, sub_zero, hs.reduced _ j hlt]
      simp only [hswap]
      by_cases hi : i = k
      · rw [if_pos hi, if_neg (hi ▸ hkj.ne')]
      · rw [if_neg hi]
    · obtain rfl := Fin.ext heq
      rw [div_self hpivot, mul_one, sub_self]
  · rw [hright, hleft, clearedBy_mul, ← hs.right_mul]
    rfl
  · rw [hright, det_clearedBy, Matrix.det_permute]
    refine div_ne_zero (mul_ne_zero ?_ hs.det_ne_zero) hpivot
    exact_mod_cast (Equiv.Perm.sign (Equiv.swap p k)).ne_zero

theorem Reached.det_eq_zero {g : Grid K n n} {k : Fin n} {s : Augmented K n} (hs : Reached g k s)
    (hstep : s.step? k = none) : g.toMatrix.det = 0 := by
  have hblock : ∀ i j, k ≤ i → j ≤ k → s.left.toMatrix i j = 0 := by
    intro i j hi hj
    rcases hj.lt_or_eq with hlt | rfl
    · rw [Grid.toMatrix_apply, hs.reduced i j hlt, if_neg (hlt.trans_le hi).ne']
    · exact s.left.entry_eq_zero_of_pivot j j (pivot_eq_zero_of_step? hstep) hi
  have hdet := congrArg Matrix.det hs.right_mul
  rw [Matrix.det_mul, det_eq_zero_of_block _ k hblock] at hdet
  exact (mul_eq_zero.mp hdet).resolve_left hs.det_ne_zero

theorem reached_after (g : Grid K n n) {k : Nat} (hk : k ≤ n) :
    (∀ s, after g k hk = some s → Reached g k s) ∧ (after g k hk = none → g.toMatrix.det = 0) :=
  holds_after rfl (fun _ _ => rfl) (reached_zero g) (fun _ _ _ hs hstep => hs.step hstep)
    (fun _ _ hs hstep => hs.det_eq_zero hstep) hk

end Augmented

/-- Exact arithmetic never leaves the range of numbers. -/
instance rangeCheckedRat : RangeChecked ℚ := ⟨fun _ => true⟩

namespace Grid

variable {n : Nat}

theorem isFinite_rat (g : Grid ℚ n n) : g.isFinite = true := by
  simp [isFinite, RangeChecked.isFinite]

theorem inverse?_eq_map (g : Grid ℚ n n) :
    g.inverse? = (Augmented.after g n (Nat.le_refl n)).map Augmented.right := by
  rw [inverse?]
  cases (Augmented.after g n (Nat.le_refl n)).map Augmented.right with
  | none => rfl
  | some h => rw [Option.filter_some, if_pos (isFinite_rat h)]

theorem mul_eq_one_of_inverse? {g h : Grid ℚ n n} (hinverse : g.inverse? = some h) :
    h.toMatrix * g.toMatrix = 1 := by
  rw [inverse?_eq_map] at hinverse
  obtain ⟨s, hafter, rfl⟩ := Option.map_eq_some_iff.mp hinverse
  exact ((Augmented.reached_after g (Nat.le_refl n)).1 s hafter).right_mul_eq_one

/-- There is no inverse exactly if the determinant is zero. -/
theorem inverse?_eq_none_iff (g : Grid ℚ n n) : g.inverse? = none ↔ g.determinant = 0 := by
  rw [determinant_eq_det]
  constructor
  · intro hnone
    rw [inverse?_eq_map, Option.map_eq_none_iff] at hnone
    exact (Augmented.reached_after g (Nat.le_refl n)).2 hnone
  · intro hdet
    cases hinverse : g.inverse? with
    | none => rfl
    | some h =>
        have hone := congrArg Matrix.det (mul_eq_one_of_inverse? hinverse)
        rw [Matrix.det_mul, hdet, mul_zero, Matrix.det_one] at hone
        exact absurd hone zero_ne_one

end Grid

/-- With a positive threshold the determinant says beforehand that there is no inverse. -/
theorem Computation.notice?_inverse_ne {n : Nat} (threshold : ℚ) (hthreshold : 0 < threshold)
    (g : Grid ℚ n n) (n_pos : 0 < n) :
    (inverse threshold g n_pos).outcome.notice? ≠ some .outOfRange := by
  simp only [inverse]
  split
  · simp [refused, Outcome.notice?]
  · rename_i habove
    cases hinverse : g.inverse? with
    | some h => simp [Outcome.notice?]
    | none =>
        rw [g.inverse?_eq_none_iff.mp hinverse, magnitude_eq_abs, abs_zero] at habove
        exact absurd hthreshold habove

namespace DenseMatrix

def identity (n : Nat) (n_pos : 0 < n) : DenseMatrix ℚ :=
  ⟨n, n, Grid.ofFn fun i j => if i = j then 1 else 0, n_pos, n_pos⟩

theorem product?_eq_identity {n : Nat} (n_pos : 0 < n) {g h : Grid ℚ n n}
    (hone : g.toMatrix * h.toMatrix = 1) :
    product? ⟨n, n, g, n_pos, n_pos⟩ ⟨n, n, h, n_pos, n_pos⟩ = some (identity n n_pos) := by
  have hgrid : g.product h = Grid.ofFn fun i j => if i = j then 1 else 0 := by
    apply Grid.toMatrix_injective
    rw [Grid.toMatrix_product, hone, Grid.toMatrix_identity]
  simp [product?, identity, hgrid]

/-- Over the rationals a square matrix has an inverse exactly if its determinant is not zero, and the
inverse is one on both sides. An inverse that is refused is refused because of the determinant. -/
theorem inverse?_spec (a : DenseMatrix ℚ) (hsquare : a.columns = a.rows) :
    ((∃ b, a.inverse? = some b) ↔ ∃ d, a.determinant? = some d ∧ d ≠ 0) ∧
    (a.inverse? = none ↔ a.determinant? = some 0) ∧
    (∀ b, a.inverse? = some b → a.product? b = some (identity a.rows a.rows_pos) ∧
      b.product? a = some (identity a.rows a.rows_pos)) ∧
    (∀ [Spectral ℚ] (threshold : ℚ) (b? : Option (DenseMatrix ℚ)), 0 < threshold →
      ∃ c, Operation.apply threshold .inverse a b? = .ok c ∧ c.outcome.notice? ≠ some .outOfRange) := by
  obtain ⟨n, m, g, n_pos, m_pos⟩ := a
  obtain rfl : m = n := hsquare
  have hdeterminant : determinant? ⟨m, m, g, n_pos, m_pos⟩ = some g.determinant := by
    simp [determinant?, square?]
  have hinverse : inverse? ⟨m, m, g, n_pos, m_pos⟩ = g.inverse?.map fun h => ⟨m, m, h, n_pos, n_pos⟩ := by
    simp [inverse?, square?]
  rw [hdeterminant, hinverse]
  refine ⟨?_, ?_, ?_, ?_⟩
  · have hnone := g.inverse?_eq_none_iff
    cases hg : g.inverse? with
    | none => simp [hnone.mp hg]
    | some h =>
        have hne : g.determinant ≠ 0 := fun hzero => by
          rw [hnone.mpr hzero] at hg
          cases hg
        simp [hne]
  · simp [Grid.inverse?_eq_none_iff]
  · intro b hb
    obtain ⟨h, hh, rfl⟩ := Option.map_eq_some_iff.mp hb
    have hone := Grid.mul_eq_one_of_inverse? hh
    exact ⟨product?_eq_identity n_pos (mul_eq_one_comm.mp hone), product?_eq_identity n_pos hone⟩
  · intro _ threshold b? hthreshold
    refine ⟨Computation.inverse threshold g n_pos, ?_, ?_⟩
    · simp [Operation.apply, Operation.applySquare, square?]
    · exact Computation.notice?_inverse_ne threshold hthreshold g n_pos

/-- A matrix whose rows have to be exchanged, with its inverse. -/
theorem inverse?_spec_of_exchange :
    ∃ b, inverse? (⟨2, 2, Grid.ofFn ![![0, 2], ![1, 3]], by decide, by decide⟩ : DenseMatrix ℚ) = some b ∧
      product? ⟨2, 2, Grid.ofFn ![![0, 2], ![1, 3]], by decide, by decide⟩ b =
        some (identity 2 (by decide)) ∧
      ∀ [Spectral ℚ], ∃ c, Operation.apply (1 / 10 : ℚ) .inverse
        ⟨2, 2, Grid.ofFn ![![0, 2], ![1, 3]], by decide, by decide⟩ none = .ok c ∧
          c.outcome.notice? ≠ some .outOfRange := by
  have hgrid : Grid.inverse? (Grid.ofFn ![![0, 2], ![1, 3]] : Grid ℚ 2 2) =
      some (Grid.ofFn ![![-3 / 2, 1], ![1 / 2, 0]]) := by decide +kernel
  have hspec := inverse?_spec ⟨2, 2, Grid.ofFn ![![0, 2], ![1, 3]], by decide, by decide⟩ rfl
  have hinverse : inverse? (⟨2, 2, Grid.ofFn ![![0, 2], ![1, 3]], by decide, by decide⟩ : DenseMatrix ℚ) =
      some ⟨2, 2, Grid.ofFn ![![-3 / 2, 1], ![1 / 2, 0]], by decide, by decide⟩ := by
    simp [inverse?, square?, hgrid]
  exact ⟨_, hinverse, (hspec.2.2.1 _ hinverse).1,
    hspec.2.2.2 (1 / 10) none (by norm_num)⟩

end DenseMatrix

end DeskCalc
