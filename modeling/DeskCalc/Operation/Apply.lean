import DeskCalc.Matrix.Inverse
import DeskCalc.Matrix.Rank
import DeskCalc.Operation.Journal

/-!
Applying an operation. The threshold for inverses is compared with the determinant as computed; how
results are written has no part in it.
-/

namespace DeskCalc

/-- What an operation yields and what it writes into the journal. -/
structure Computation (α : Type) where
  outcome : Outcome α
  journal : List (JournalEntry α) := []

namespace Computation

variable {α : Type} [OfNat α 0] [OfNat α 1] [Neg α] [Sub α] [Mul α] [Div α] [BEq α] [LT α]
  [DecidableLT α] [RangeChecked α]

/-- A determinant without an inverse, and the entry about it. -/
def refused (determinant : α) (shape : Shape) (notice : Notice) : Computation α where
  outcome := .inverse determinant (.error notice)
  journal := [⟨notice, determinant, shape⟩]

/-- The determinant and the inverse of the square matrix with the entries `g`. -/
def inverse (threshold : α) {n : Nat} (g : Grid α n n) (n_pos : 0 < n) : Computation α :=
  let determinant := g.determinant
  if magnitude determinant < threshold then refused determinant ⟨n, n⟩ .singular
  else
    match g.inverse? with
    | some h => ⟨.inverse determinant (.ok ⟨n, n, h, n_pos, n_pos⟩), []⟩
    | none => refused determinant ⟨n, n⟩ .outOfRange

end Computation

namespace Operation

variable {α : Type}

/-- A binary operation, which needs a second operand whose shape fits. -/
def applyBinary (operation : Operation) (f : DenseMatrix α → DenseMatrix α → Option (DenseMatrix α))
    (a : DenseMatrix α) (b? : Option (DenseMatrix α)) : Except OperationError (Computation α) :=
  match b? with
  | none => .error (.missingOperand operation)
  | some b =>
    match f a b with
    | some c => .ok ⟨.matrix c, []⟩
    | none => .error (.incompatibleShapes operation a.shape b.shape)

/-- An operation on square matrices. -/
def applySquare (f : {n : Nat} → Grid α n n → 0 < n → Computation α) (a : DenseMatrix α) :
    Except OperationError (Computation α) :=
  match a.square? with
  | some g => .ok (f g a.rows_pos)
  | none => .error (.notSquare a.shape)

/-- What `operation` makes of `a`, and of `b?` if it is binary. -/
def apply [OfNat α 0] [OfNat α 1] [OfNat α 2] [Add α] [Sub α] [Mul α] [Div α] [Neg α] [BEq α] [LT α]
    [DecidableLT α] [LE α] [DecidableLE α] [NatCast α] [RangeChecked α] [Spectral α] (threshold : α)
    (operation : Operation) (a : DenseMatrix α) (b? : Option (DenseMatrix α)) :
    Except OperationError (Computation α) :=
  match operation with
  | addition => applyBinary operation DenseMatrix.add? a b?
  | subtraction => applyBinary operation DenseMatrix.sub? a b?
  | product => applyBinary operation DenseMatrix.product? a b?
  | termwiseProduct => applyBinary operation DenseMatrix.termwise? a b?
  | transpose => .ok ⟨.matrix a.transpose, []⟩
  | rank => .ok ⟨.rank a.rank, []⟩
  | determinant => applySquare (fun g _ => ⟨.determinant g.determinant, []⟩) a
  | inverse => applySquare (fun g n_pos => Computation.inverse threshold g n_pos) a

end Operation

end DeskCalc
