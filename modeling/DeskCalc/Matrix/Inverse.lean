import DeskCalc.Matrix.Elimination

/-!
The inverse of a square matrix. The matrix and the identity are taken through the same row operations
until the matrix has become the identity; the identity has then become the inverse.
-/

namespace DeskCalc

/-- Two grids that undergo the same row operations. -/
structure Augmented (α : Type) (n : Nat) where
  left : Grid α n n
  right : Grid α n n

namespace Augmented

variable {α : Type} [OfNat α 0] [OfNat α 1] [Neg α] [Sub α] [Mul α] [Div α] [BEq α] [LT α]
  [DecidableLT α] {n : Nat}

/-- Row `k` of `rows` replaced by `source`, and the multiple of it that column `k` of `left` asks for
taken from every other row. -/
def clearOthers (left rows : Grid α n n) (source : Vector α n) (k : Fin n) : Grid α n n :=
  Vector.ofFn fun i =>
    if i = k then source else Grid.reduceRow (rows.get i) source (left.entry i k) 0

/-- One step: column `k` of the left grid becomes a column of the identity. There is no step without a
nonzero entry at or below the diagonal. -/
def step? (s : Augmented α n) (k : Fin n) : Option (Augmented α n) :=
  let p := s.left.pivotRow k k
  if s.left.entry p k == 0 then none
  else
    let left := s.left.swapRows p k
    let right := s.right.swapRows p k
    let pivot := left.entry k k
    some ⟨clearOthers left left ((left.get k).map (· / pivot)) k,
      clearOthers left right ((right.get k).map (· / pivot)) k⟩

/-- What the first `k` steps make of a grid and the identity. -/
def after (g : Grid α n n) : (k : Nat) → k ≤ n → Option (Augmented α n)
  | 0, _ => some ⟨g, Grid.ofFn fun i j => if i = j then 1 else 0⟩
  | k + 1, h => (after g k (Nat.le_of_succ_le h)).bind (·.step? ⟨k, h⟩)

end Augmented

namespace Grid

variable {α : Type} [OfNat α 0] [OfNat α 1] [Neg α] [Sub α] [Mul α] [Div α] [BEq α] [LT α]
  [DecidableLT α] [RangeChecked α] {n : Nat}

/-- Whether all entries are numbers. -/
def isFinite (g : Grid α n n) : Bool := g.all (·.all RangeChecked.isFinite)

/-- The inverse, if every step finds a pivot and all entries are numbers. -/
def inverse? (g : Grid α n n) : Option (Grid α n n) :=
  ((Augmented.after g n (Nat.le_refl n)).map Augmented.right).filter isFinite

end Grid

namespace DenseMatrix

variable {α : Type}

/-- The inverse of a square matrix, if there is one within the range of numbers. -/
def inverse? [OfNat α 0] [OfNat α 1] [Neg α] [Sub α] [Mul α] [Div α] [BEq α] [LT α] [DecidableLT α]
    [RangeChecked α] (a : DenseMatrix α) : Option (DenseMatrix α) :=
  (a.square?.bind Grid.inverse?).map fun g => ⟨a.rows, a.rows, g, a.rows_pos, a.rows_pos⟩

end DenseMatrix

end DeskCalc
