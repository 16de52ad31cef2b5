import DeskCalc.Matrix.Dense

/-!
Sums, differences and products. Each is defined exactly for operands whose shapes fit. A product adds
up whole rows: row `i` of the product of `A` and `B` is the sum over `t`, from left to
right, of the entry `(i, t)` of `A` times row `t` of `B`.
-/

namespace DeskCalc

namespace Grid

variable {α : Type} [OfNat α 0] [Add α] [Mul α] {n k p : Nat}

/-- The combination of the rows of `h` with the entries of `coefficients`. -/
def combineRows (coefficients : Vector α k) (h : Grid α k p) : Vector α p :=
  (List.finRange k).foldl
    (fun sums t => Vector.zipWith (fun sum x => sum + coefficients.get t * x) sums (h.get t))
    (Vector.replicate p 0)

def product (g : Grid α n k) (h : Grid α k p) : Grid α n p := g.map (combineRows · h)

end Grid

namespace DenseMatrix

variable {α : Type}

/-- Entry by entry, for matrices of one shape. -/
def combine? (f : α → α → α) (a b : DenseMatrix α) : Option (DenseMatrix α) :=
  if h : b.rows = a.rows ∧ b.columns = a.columns then
    some { a with entries := Grid.zipWith f a.entries (b.entries.resize h.1 h.2) }
  else none

def add? [Add α] (a b : DenseMatrix α) : Option (DenseMatrix α) := combine? (· + ·) a b

def sub? [Sub α] (a b : DenseMatrix α) : Option (DenseMatrix α) := combine? (· - ·) a b

def termwise? [Mul α] (a b : DenseMatrix α) : Option (DenseMatrix α) := combine? (· * ·) a b

/-- The matrix product, if `a` has as many columns as `b` has rows. -/
def product? [OfNat α 0] [Add α] [Mul α] (a b : DenseMatrix α) : Option (DenseMatrix α) :=
  if h : b.rows = a.columns then
    some ⟨a.rows, b.columns, a.entries.product (b.entries.resize h rfl), a.rows_pos, b.columns_pos⟩
  else none

def transpose (a : DenseMatrix α) : DenseMatrix α :=
  ⟨a.columns, a.rows, a.entries.transpose, a.columns_pos, a.rows_pos⟩

end DenseMatrix

end DeskCalc
