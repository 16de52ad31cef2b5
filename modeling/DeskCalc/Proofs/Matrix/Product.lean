import DeskCalc.Matrix.Arithmetic
import DeskCalc.Proofs.Matrix.RowOperations

/-!
The product of grids entry by entry: a sum from left to right, and in exact arithmetic the product of
matrices. The sum is one of a row with a column under any arithmetic, rounded or not, and so the transposes
have the transposed product if only factors may be exchanged.
-/

namespace DeskCalc

namespace Grid

section Sum

variable {K : Type} [Add K] [Mul K] {n k p : Nat}

theorem get_foldl_combine (coefficients : Vector K k) (h : Grid K k p) (ts : List (Fin k))
    (sums : Vector K p) (j : Fin p) :
    (ts.foldl (fun sums t => Vector.zipWith (fun sum x => sum + coefficients.get t * x) sums (h.get t))
        sums).get j =
      ts.foldl (fun sum t => sum + coefficients.get t * h.entry t j) (sums.get j) := by
  induction ts generalizing sums with
  | nil => rfl
  | cons t ts ih =>
      rw [List.foldl_cons, List.foldl_cons, ih, get_eq_getElem, Vector.getElem_zipWith]
      rfl

theorem entry_product [OfNat K 0] (g : Grid K n k) (h : Grid K k p) (i : Fin n) (j : Fin p) :
    (g.product h).entry i j = (List.finRange k).foldl (fun sum t => sum + g.entry i t * h.entry t j) 0 := by
  have hrow : (g.product h).get i = combineRows (g.get i) h := by
    rw [product, get_eq_getElem, Vector.getElem_map]
    rfl
  have hzero : (Vector.replicate p (0 : K)).get j = 0 := by
    rw [get_eq_getElem, Vector.getElem_replicate]
  rw [entry, hrow, combineRows, get_foldl_combine, hzero]
  rfl

end Sum

/-- In exact arithmetic the product is that of matrices. -/
theorem toMatrix_product {K : Type} [NonUnitalNonAssocSemiring K] {n k p : Nat} (g : Grid K n k)
    (h : Grid K k p) : (g.product h).toMatrix = g.toMatrix * h.toMatrix := by
  ext i j
  rw [toMatrix_apply, entry_product, Matrix.mul_apply, Fin.sum_univ_def, List.sum_eq_foldl,
    List.foldl_map]
  rfl

section Transpose

variable {α : Type} {n m k p : Nat}

theorem transpose_transpose (g : Grid α n m) : g.transpose.transpose = g := by
  ext i j
  rw [entry_transpose, entry_transpose]

/-- The sums are over the same products in the same order. -/
theorem transpose_product [OfNat α 0] [Add α] [Mul α] (hcomm : ∀ x y : α, x * y = y * x) (g : Grid α n k)
    (h : Grid α k p) : (g.product h).transpose = h.transpose.product g.transpose := by
  ext j i
  simp only [entry_transpose, entry_product]
  congr 1
  funext sum t
  rw [hcomm]

end Transpose

end Grid

section Doubles

open Float.Model (Format UnpackedFloat)

theorem Binary64.unpacked_mul_comm (a b : UnpackedFloat) :
    UnpackedFloat.mul .binary64 a b = UnpackedFloat.mul .binary64 b a := by
  have hsign : ∀ s t : UnpackedFloat.Sign, s * t = t * s := by
    rintro ⟨⟩ ⟨⟩ <;> rfl
  cases a with
  | notANumber => cases b <;> rfl
  | infinity s =>
      cases b with
      | notANumber | zero => rfl
      | infinity t | finite t => exact congrArg UnpackedFloat.infinity (hsign s t)
  | zero s =>
      cases b with
      | notANumber | infinity => rfl
      | zero t | finite t => exact congrArg UnpackedFloat.zero (hsign s t)
  | finite s m e =>
      cases b with
      | notANumber => rfl
      | infinity t => exact congrArg UnpackedFloat.infinity (hsign s t)
      | zero t => exact congrArg UnpackedFloat.zero (hsign s t)
      | finite t m' e' =>
          show UnpackedFloat.roundWithAccuracy .binary64 (s * t) (m * m') (e + e') .exact =
            UnpackedFloat.roundWithAccuracy .binary64 (t * s) (m' * m) (e' + e) .exact
          rw [hsign, Nat.mul_comm, Int.add_comm]

/-- Doubles are multiplied in either order. -/
theorem Binary64.mul_comm (x y : Float) : x * y = y * x := by
  have hunpacked := unpacked_mul_comm x.toModel.unpack y.toModel.unpack
  exact congrArg (fun u => Float.ofModel (Float.Model.pack u)) hunpacked

end Doubles

namespace DenseMatrix

variable {α : Type}

/-- Matrices that fit have a product, whose entries are the sums of a row with a column, from zero on and from
left to right; and no law of arithmetic but the exchange of factors is needed for its transpose. -/
theorem product?_eq_folds [OfNat α 0] [Add α] [Mul α] :
    (∀ (a b : DenseMatrix α) (hfit : b.rows = a.columns), ∃ c, a.product? b = some c ∧
      (∃ (hrows : a.rows = c.rows) (hcolumns : b.columns = c.columns), ∀ i j,
        c.entries.entry (i.cast hrows) (j.cast hcolumns) =
          (List.finRange a.columns).foldl
            (fun sum t => sum + a.entries.entry i t * b.entries.entry (t.cast hfit.symm) j) 0) ∧
      ((∀ x y : α, x * y = y * x) → b.transpose.product? a.transpose = some c.transpose)) ∧
    ∀ a : DenseMatrix α, a.transpose.transpose = a := by
  refine ⟨?_, ?_⟩
  · rintro ⟨rows, inner, g, hrows, hinner⟩ ⟨_, columns, h, hpos, hcolumns⟩ hfit
    obtain rfl : _ = inner := hfit
    refine ⟨_, dif_pos rfl, ⟨rfl, rfl, fun i j => Grid.entry_product g h i j⟩, fun hcomm => ?_⟩
    simp [product?, transpose, Grid.transpose_product hcomm]
  · intro a
    simp only [transpose, Grid.transpose_transpose]

/-- Doubles cancel in the order in which they are added: the one that is added second is lost. -/
theorem product?_eq_folds_of_cancellation :
    ∃ c, product? ⟨2, 3, Grid.ofFn ![![1e16, 1, -1e16], ![1, 2, 3]], by decide, by decide⟩
        (⟨3, 1, Grid.ofFn ![![1], ![1], ![1]], by decide, by decide⟩ : DenseMatrix Float) = some c ∧
      c.toRows = [[0], [6]] ∧
      product? (transpose ⟨3, 1, Grid.ofFn ![![1], ![1], ![1]], by decide, by decide⟩)
        (transpose ⟨2, 3, Grid.ofFn ![![1e16, 1, -1e16], ![1, 2, 3]], by decide, by decide⟩) =
          some c.transpose := by
  have hvalue : (product? ⟨2, 3, Grid.ofFn ![![1e16, 1, -1e16], ![1, 2, 3]], by decide, by decide⟩
      (⟨3, 1, Grid.ofFn ![![1], ![1], ![1]], by decide, by decide⟩ : DenseMatrix Float)).map toRows =
        some [[0], [6]] := by decide +kernel
  obtain ⟨c, hc, -, htranspose⟩ := product?_eq_folds.1
    (⟨2, 3, Grid.ofFn ![![1e16, 1, -1e16], ![1, 2, 3]], by decide, by decide⟩ : DenseMatrix Float)
    ⟨3, 1, Grid.ofFn ![![1], ![1], ![1]], by decide, by decide⟩ rfl
  rw [hc] at hvalue
  exact ⟨c, hc, Option.some.inj hvalue, htranspose Binary64.mul_comm⟩

end DenseMatrix

end DeskCalc
