import DeskCalc.Matrix.Dense

/-!
The operations on matrices, what they yield, and why they may fail. An inverse is refused with a notice,
not with an error: its determinant is still shown.
-/

namespace DeskCalc

inductive Operation
  | addition
  | subtraction
  | product
  | termwiseProduct
  | transpose
  | rank
  | determinant
  | inverse
deriving DecidableEq, Repr

namespace Operation

/-- All operations, in the order of the list to choose from. -/
def all : List Operation :=
  [addition, subtraction, product, termwiseProduct, transpose, rank, determinant, inverse]

def label : Operation → String
  | addition => "Addition (A + B)"
  | subtraction => "Soustraction (A - B)"
  | product => "Produit (A · B)"
  | termwiseProduct => "Produit terme à terme"
  | transpose => "Transposée de A"
  | rank => "Rang de A"
  | determinant => "Déterminant de A"
  | inverse => "Inverse de A"

/-- Whether the operation takes a second matrix. -/
def isBinary : Operation → Bool
  | addition | subtraction | product | termwiseProduct => true
  | transpose | rank | determinant | inverse => false

end Operation

inductive OperationError
  | incompatibleShapes (operation : Operation) (a b : Shape)
  | notSquare (shape : Shape)
  | missingOperand (operation : Operation)
deriving DecidableEq, Repr

def OperationError.message : OperationError → String
  | .incompatibleShapes operation a b =>
    operation.label ++ " : formes incompatibles A " ++ a.text ++ " et B " ++ b.text
  | .notSquare shape => "La matrice doit être carrée (forme " ++ shape.text ++ ")"
  | .missingOperand operation => operation.label ++ " : la matrice B est requise"

/-- Why a determinant is shown without an inverse. -/
inductive Notice
  /-- The determinant is below the threshold. -/
  | singular
  /-- The elimination finds no inverse whose entries are all numbers. -/
  | outOfRange
deriving DecidableEq, Repr

def Notice.text : Notice → String
  | .singular => "Matrice singulière : pas d’inverse."
  | .outOfRange => "Inverse non représentable en flottant (valeurs hors plage)."

inductive Outcome (α : Type)
  | matrix (value : DenseMatrix α)
  | rank (value : Nat)
  | determinant (value : α)
  | inverse (determinant : α) (value : Except Notice (DenseMatrix α))

/-- The notice that goes with an outcome. -/
def Outcome.notice? {α : Type} : Outcome α → Option Notice
  | .inverse _ (.error notice) => some notice
  | _ => none

end DeskCalc
