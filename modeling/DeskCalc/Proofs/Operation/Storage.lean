import DeskCalc.Proofs.Matrix.CheckedColumns
import DeskCalc.Proofs.Matrix.CheckedInverse
import DeskCalc.Proofs.Operation.Failures
import DeskCalc.Proofs.Operation.Threshold

/-!
Matrices as they are kept: a shape, and a buffer with the values row after row. Nothing ties the two together but the
invariant that there is a row and a column and a value for each place. It holds of what is built from rows and of what
the operations yield, and it is all that the operations need: under it no address is out of range, no divisor is zero
and no angle is asked for in vain, for any size and whatever the values are.
-/

namespace DeskCalc

/-- A shape, and values row after row. -/
structure Stored (α : Type) where
  shape : Shape
  values : Array α

namespace Stored

variable {α : Type}

/-- There is a row and a column, and a value for each place. -/
structure IsValid (s : Stored α) : Prop where
  rows_pos : 1 ≤ s.shape.rows
  columns_pos : 1 ≤ s.shape.columns
  size_values : s.values.size = s.shape.rows * s.shape.columns

/-- The matrix with the given rows, unless there is no row or no column or the rows have different lengths. -/
def ofRows? : List (List α) → Option (Stored α)
  | [] => none
  | first :: rest =>
    if first.length = 0 ∨ ∃ row ∈ rest, row.length ≠ first.length then none
    else some ⟨⟨rest.length + 1, first.length⟩, (first :: rest).flatten.toArray⟩

/-- Value by value, for matrices of one shape. -/
def combine? (f : α → α → α) (a b : Stored α) : Option (Stored α) :=
  if a.shape = b.shape then some ⟨a.shape, Array.zipWith f a.values b.values⟩ else none

def product? [OfNat α 0] [Add α] [Mul α] (a b : Stored α) : Checked (Option (Stored α)) :=
  if a.shape.columns = b.shape.rows then do
    let values ← Checked.product a.shape.rows a.shape.columns b.shape.columns a.values b.values
    return some ⟨⟨a.shape.rows, b.shape.columns⟩, values⟩
  else return none

def transpose [OfNat α 0] (a : Stored α) : Checked (Stored α) := do
  let values ← Checked.transpose a.shape.rows a.shape.columns a.values
  return ⟨⟨a.shape.columns, a.shape.rows⟩, values⟩

section Elimination

variable [OfNat α 0] [OfNat α 1] [Neg α] [Sub α] [Mul α] [Div α] [BEq α] [LT α] [DecidableLT α]

def determinant? (a : Stored α) : Checked (Option α) :=
  if a.shape.rows = a.shape.columns then do
    let d ← Checked.determinant a.shape.rows a.values
    return some d
  else return none

def inverse? [RangeChecked α] (a : Stored α) : Checked (Option (Stored α)) :=
  if a.shape.rows = a.shape.columns then do
    let values? ← Checked.inverse a.shape.rows a.values
    return values?.map fun values => ⟨⟨a.shape.rows, a.shape.rows⟩, values⟩
  else return none

end Elimination

def singularValues (a : Stored Float) : Checked (List Float) :=
  Checked.singularValues a.shape.rows a.shape.columns a.values

end Stored

namespace DenseMatrix

variable {α : Type}

/-- The matrix as it is kept. -/
def stored (a : DenseMatrix α) : Stored α := ⟨a.shape, a.entries.flat⟩

theorem isValid_stored (a : DenseMatrix α) : a.stored.IsValid := ⟨a.rows_pos, a.columns_pos, a.entries.size_flat⟩

/-- What meets the invariant is a matrix. -/
theorem exists_stored_eq {s : Stored α} (h : s.IsValid) : ∃ a : DenseMatrix α, a.stored = s := by
  obtain ⟨⟨rows, columns⟩, values⟩ := s
  obtain ⟨g, hg⟩ := Grid.exists_flat_eq h.size_values
  exact ⟨⟨rows, columns, g, h.rows_pos, h.columns_pos⟩, congrArg (Stored.mk ⟨rows, columns⟩) hg⟩

theorem flat_entries (a : DenseMatrix α) : a.entries.flat = a.toRows.flatten.toArray := by
  rw [toRows, ← Grid.toList_flat]

theorem map_stored_ofRows? (rows : List (List α)) : (ofRows? rows).map stored = Stored.ofRows? rows := by
  cases rows with
  | nil => rfl
  | cons first rest =>
      have hcondition : (0 < first.length ∧ ∀ row ∈ first :: rest, row.length = first.length) ↔
          ¬(first.length = 0 ∨ ∃ row ∈ rest, row.length ≠ first.length) := by
        simp [Nat.pos_iff_ne_zero]
      simp only [ofRows?, Stored.ofRows?]
      by_cases h : 0 < first.length ∧ ∀ row ∈ first :: rest, row.length = first.length
      · rw [dif_pos h, if_neg (hcondition.1 h), Option.map_some, stored, flat_entries, toRows, Grid.toRows_ofRows]
        rfl
      · rw [dif_neg h, if_pos (not_not.1 (mt hcondition.2 h))]
        rfl

theorem map_stored_combine? (f : α → α → α) (a b : DenseMatrix α) :
    (a.combine? f b).map stored = a.stored.combine? f b.stored := by
  by_cases h : a.shape = b.shape
  · obtain ⟨rows, columns, g, hrows, hcolumns⟩ := a
    obtain ⟨_, _, g', _, _⟩ := b
    obtain ⟨rfl, rfl⟩ := Shape.mk.inj h
    simp only [Stored.combine?, combine?, stored, shape, if_true, and_self, dif_pos, Grid.resize_rfl, Option.map_some,
      Grid.flat_zipWith]
  · rw [combine?, dif_neg (mt shape_eq_iff.2 h), Stored.combine?]
    exact (if_neg h).symm

theorem product?_stored [OfNat α 0] [Add α] [Mul α] (a b : DenseMatrix α) :
    a.stored.product? b.stored = .ok ((a.product? b).map stored) := by
  by_cases h : a.columns = b.rows
  · obtain ⟨rows, inner, g, hrows, hinner⟩ := a
    obtain ⟨_, columns, g', hpos, hcolumns⟩ := b
    obtain rfl : inner = _ := h
    simp only [Stored.product?, product?, stored, shape, if_true, dif_pos, Checked.product_flat, Checked.ok_bind,
      Grid.resize_rfl]
    rfl
  · rw [Stored.product?, product?, dif_neg (Ne.symm h)]
    exact if_neg h

theorem transpose_stored [OfNat α 0] (a : DenseMatrix α) : a.stored.transpose = .ok a.transpose.stored := by
  rw [Stored.transpose, stored, shape]
  dsimp only
  rw [Checked.transpose_flat]
  rfl

section Elimination

variable [OfNat α 0] [OfNat α 1] [Neg α] [Sub α] [Mul α] [Div α] [BEq α] [LT α] [DecidableLT α]

theorem determinant?_stored (a : DenseMatrix α) : a.stored.determinant? = .ok a.determinant? := by
  by_cases h : a.rows = a.columns
  · obtain ⟨n, _, g, n_pos, m_pos⟩ := a
    obtain rfl : n = _ := h
    simp only [Stored.determinant?, determinant?, square?, stored, shape, if_true, dif_pos, Checked.determinant_flat,
      Checked.ok_bind, Grid.resize_rfl]
    rfl
  · rw [Stored.determinant?, determinant?, square?, dif_neg (Ne.symm h)]
    exact if_neg h

theorem inverse?_stored [RangeChecked α] (a : DenseMatrix α) : a.stored.inverse? = .ok (a.inverse?.map stored) := by
  by_cases h : a.rows = a.columns
  · obtain ⟨n, _, g, n_pos, m_pos⟩ := a
    obtain rfl : n = _ := h
    simp only [Stored.inverse?, inverse?, square?, stored, shape, if_true, dif_pos, Checked.inverse_flat,
      Checked.ok_bind, Grid.resize_rfl, Option.bind_some, Option.map_map]
    rfl
  · rw [Stored.inverse?, inverse?, square?, dif_neg (Ne.symm h)]
    exact if_neg h

end Elimination

theorem singularValues_stored (a : DenseMatrix Float) : a.stored.singularValues = .ok a.singularValues :=
  Checked.singularValues_flat a.entries

end DenseMatrix

/-- The shape of the matrix that an operation yields. -/
def Operation.resultShape : Operation → Shape → Option Shape → Shape
  | .product, a, some b => ⟨a.rows, b.columns⟩
  | .transpose, a, _ => ⟨a.columns, a.rows⟩
  | .inverse, a, _ => ⟨a.rows, a.rows⟩
  | _, a, _ => a

namespace Operation

variable {threshold : Float} {operation : Operation} {a b c : DenseMatrix Float} {b? : Option (DenseMatrix Float)}
  {run : Computation Float}

/-- A binary operation yields what its function makes of the two operands. -/
theorem exists_of_applyBinary {f : DenseMatrix Float → DenseMatrix Float → Option (DenseMatrix Float)}
    (hrun : applyBinary operation f a b? = .ok run) (hc : run.outcome.matrix? = some c) :
    ∃ b, b? = some b ∧ f a b = some c := by
  unfold applyBinary at hrun
  cases b? with
  | none => cases hrun
  | some b =>
      cases hf : f a b with
      | none => simp [hf] at hrun
      | some c' =>
          simp only [hf, Except.ok.injEq] at hrun
          subst hrun
          obtain rfl := Option.some.inj hc
          exact ⟨b, rfl, hf⟩

theorem shape_of_combine? {f : Float → Float → Float} (h : DenseMatrix.combine? f a b = some c) : c.shape = a.shape := by
  have hstored := DenseMatrix.map_stored_combine? f a b
  rw [h, Option.map_some, Stored.combine?] at hstored
  split at hstored
  · exact congrArg Stored.shape (Option.some.inj hstored)
  · cases hstored

theorem shape_of_product? (h : a.product? b = some c) : c.shape = ⟨a.rows, b.columns⟩ := by
  unfold DenseMatrix.product? at h
  split at h
  · exact (Option.some.inj h) ▸ rfl
  · cases h

theorem shape_of_apply (hrun : operation.apply threshold a b? = .ok run) (hc : run.outcome.matrix? = some c) :
    c.shape = operation.resultShape a.shape (b?.map DenseMatrix.shape) := by
  cases operation with
  | addition | subtraction | termwiseProduct =>
      obtain ⟨b, rfl, h⟩ := exists_of_applyBinary hrun hc
      exact shape_of_combine? h
  | product =>
      obtain ⟨b, rfl, h⟩ := exists_of_applyBinary hrun hc
      exact shape_of_product? h
  | transpose =>
      obtain rfl := Except.ok.inj hrun
      obtain rfl := Option.some.inj hc
      rfl
  | rank =>
      obtain rfl := Except.ok.inj hrun
      cases hc
  | determinant =>
      simp only [apply, applySquare] at hrun
      split at hrun
      · obtain rfl := Except.ok.inj hrun
        cases hc
      · cases hrun
  | inverse =>
      simp only [apply, applySquare] at hrun
      split at hrun
      · rename_i g _
        obtain rfl := Except.ok.inj hrun
        obtain ⟨-, h⟩ | ⟨-, -, h⟩ | ⟨-, g', -, h⟩ := Computation.inverse_cases threshold g a.rows_pos
        · rw [h] at hc
          cases hc
        · rw [h] at hc
          cases hc
        · rw [h] at hc
          obtain rfl := Option.some.inj hc
          rfl
      · cases hrun

end Operation

/-- Matrices are kept as valid buffers, and nothing that is done to them makes a misstep. What is built from rows is
valid, and so is what an operation yields, which has the shape that the operation promises. On valid buffers the
programs for products, transposes, pivots, exchanges, determinants, inverses and singular values read, write, swap and
slice in range only, divide only by what compares different from zero and ask for an angle only if the product of the
columns does; and they come to what the operations yield. -/
theorem Stored.checked_runs :
    (∀ (rows : List (List Float)) s, Stored.ofRows? rows = some s →
      s.IsValid ∧ ∃ a, DenseMatrix.ofRows? rows = some a ∧ a.stored = s) ∧
    (∀ (threshold : Float) (operation : Operation) (a : DenseMatrix Float) b? run c,
      operation.apply threshold a b? = .ok run → run.outcome.matrix? = some c →
        c.stored.IsValid ∧ c.stored.shape = operation.resultShape a.shape (b?.map DenseMatrix.shape)) ∧
    (∀ {n m : Nat} (g : Grid Float n m) (i j : Fin n) (c : Fin m),
      Checked.pivotRow g.flat m i n c = .ok (g.pivotRow i c).val ∧
        Checked.swapRows g.flat m i j = .ok (g.swapRows i j).flat) ∧
    ∀ s t : Stored Float, s.IsValid → t.IsValid → ∃ a b : DenseMatrix Float, a.stored = s ∧ b.stored = t ∧
      (∀ f, s.combine? f t = (a.combine? f b).map DenseMatrix.stored) ∧
      s.product? t = .ok ((a.product? b).map DenseMatrix.stored) ∧
      s.transpose = .ok a.transpose.stored ∧
      s.determinant? = .ok a.determinant? ∧
      s.inverse? = .ok (a.inverse?.map DenseMatrix.stored) ∧
      s.singularValues = .ok a.singularValues := by
  refine ⟨?_, ?_, ?_, ?_⟩
  · intro rows s hs
    rw [← DenseMatrix.map_stored_ofRows?] at hs
    obtain ⟨a, ha, rfl⟩ := Option.map_eq_some_iff.1 hs
    exact ⟨a.isValid_stored, a, ha, rfl⟩
  · intro threshold operation a b? run c hrun hc
    exact ⟨c.isValid_stored, Operation.shape_of_apply hrun hc⟩
  · intro n m g i j c
    exact ⟨Checked.pivotRow_flat g i c, Checked.swapRows_flat g i j⟩
  · intro s t hs ht
    obtain ⟨a, rfl⟩ := DenseMatrix.exists_stored_eq hs
    obtain ⟨b, rfl⟩ := DenseMatrix.exists_stored_eq ht
    exact ⟨a, b, rfl, rfl, fun f => (DenseMatrix.map_stored_combine? f a b).symm, a.product?_stored b,
      a.transpose_stored, a.determinant?_stored, a.inverse?_stored, a.singularValues_stored⟩

/-- Rows that must be exchanged before anything is divided. -/
theorem Stored.checked_runs_of_exchange :
    IsValid (⟨⟨2, 2⟩, #[0, 2, 4, 1]⟩ : Stored Float) ∧
      ∃ a : DenseMatrix Float, a.stored = ⟨⟨2, 2⟩, #[0, 2, 4, 1]⟩ ∧ a.determinant? = some (-8) ∧
        a.transpose.stored.IsValid := by
  have hrows : Stored.ofRows? [[0, 2], [4, 1]] = some (⟨⟨2, 2⟩, #[0, 2, 4, 1]⟩ : Stored Float) := by rfl
  have hvalid := (checked_runs.1 [[0, 2], [4, 1]] _ hrows).1
  obtain ⟨a, -, ha, -, -, -, -, hdeterminant, -⟩ := checked_runs.2.2.2 _ _ hvalid hvalid
  have hvalue : determinant? (⟨⟨2, 2⟩, #[0, 2, 4, 1]⟩ : Stored Float) = .ok (some (-8)) := by decide +kernel
  have htranspose := checked_runs.2.1 0 .transpose a none ⟨.matrix a.transpose, []⟩ a.transpose rfl rfl
  exact ⟨hvalid, a, ha, (Except.ok.inj (hvalue.symm.trans hdeterminant)).symm, htranspose.1⟩

/-- A buffer that is too short stops the run. -/
example : Stored.determinant? (⟨⟨2, 2⟩, #[0, 2, 4]⟩ : Stored Int) = .error (.outOfRange 3 3) := by rfl

end DeskCalc
