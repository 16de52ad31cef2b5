import DeskCalc.Matrix.Dense
import DeskCalc.Matrix.Scalar

/-!
Elimination with partial pivoting. Column by column, the row with the largest entry at or below the
diagonal is brought onto it, and multiples of it are taken from the rows below. The determinant is
the product of the pivots, its sign changed by each exchange of two different rows.
-/

namespace DeskCalc

namespace Grid

variable {α : Type} [OfNat α 0] {n m : Nat}

/-- The first row, from row `k` on, whose entry in column `c` is largest in magnitude. -/
def pivotRow [Neg α] [LT α] [DecidableLT α] (g : Grid α n m) (k : Fin n) (c : Fin m) : Fin n :=
  ((List.finRange n).filter (k < ·)).foldl
    (fun best i => if magnitude (g.entry best c) < magnitude (g.entry i c) then i else best) k

/-- `target` less `factor` times `source`, from column `start` on. With the factor zero nothing is
computed. -/
def reduceRow [Sub α] [Mul α] [BEq α] (target source : Vector α m) (factor : α) (start : Nat) :
    Vector α m :=
  if factor == 0 then target
  else
    Vector.ofFn fun j =>
      if start ≤ j.val then target.get j - factor * source.get j else target.get j

/-- The rows below row `k` reduced by multiples of it, so that column `k` vanishes there. -/
def clearBelow [Sub α] [Mul α] [Div α] [BEq α] (g : Grid α n n) (k : Fin n) : Grid α n n :=
  Vector.ofFn fun i =>
    if k < i then reduceRow (g.get i) (g.get k) (g.entry i k / g.entry k k) k else g.get i

end Grid

/-- A grid on its way to triangular form, with the product of the pivots so far. -/
structure Triangulation (α : Type) (n : Nat) where
  grid : Grid α n n
  product : α

namespace Triangulation

variable {α : Type} [OfNat α 0] [OfNat α 1] [Neg α] [Sub α] [Mul α] [Div α] [BEq α] [LT α]
  [DecidableLT α] {n : Nat}

/-- One step: column `k` is cleared below the diagonal. There is no step without a nonzero entry. -/
def step? (s : Triangulation α n) (k : Fin n) : Option (Triangulation α n) :=
  let p := s.grid.pivotRow k k
  if s.grid.entry p k == 0 then none
  else
    let swapped := s.grid.swapRows p k
    some ⟨swapped.clearBelow k, (if p = k then s.product else -s.product) * swapped.entry k k⟩

/-- What the first `k` steps make of a grid. -/
def after (g : Grid α n n) : (k : Nat) → k ≤ n → Option (Triangulation α n)
  | 0, _ => some ⟨g, 1⟩
  | k + 1, h => (after g k (Nat.le_of_succ_le h)).bind (·.step? ⟨k, h⟩)

end Triangulation

namespace Grid

variable {α : Type} [OfNat α 0] [OfNat α 1] [Neg α] [Sub α] [Mul α] [Div α] [BEq α] [LT α]
  [DecidableLT α] {n : Nat}

/-- The determinant: zero if some step finds no pivot. -/
def determinant (g : Grid α n n) : α :=
  match Triangulation.after g n (Nat.le_refl n) with
  | some s => s.product
  | none => 0

end Grid

namespace DenseMatrix

variable {α : Type}

/-- The grid of a square matrix. -/
def square? (a : DenseMatrix α) : Option (Grid α a.rows a.rows) :=
  if h : a.columns = a.rows then some (a.entries.resize rfl h) else none

/-- The determinant of a square matrix. -/
def determinant? [OfNat α 0] [OfNat α 1] [Neg α] [Sub α] [Mul α] [Div α] [BEq α] [LT α]
    [DecidableLT α] (a : DenseMatrix α) : Option α :=
  a.square?.map Grid.determinant

end DenseMatrix

end DeskCalc
