import DeskCalc.Matrix.Reader
import DeskCalc.Operation.Apply
import DeskCalc.Settings

/-!
From typed matrices to an outcome: `A` is read first, `B` only for a binary operation, and then the
operation is applied. The first failure is the one reported.
-/

namespace DeskCalc

inductive Operand
  | a
  | b
deriving DecidableEq, Repr

def Operand.name : Operand → String
  | .a => "A"
  | .b => "B"

inductive CalculationError
  | reading (operand : Operand) (error : ReadError)
  | operation (error : OperationError)
deriving DecidableEq, Repr

def CalculationError.message : CalculationError → String
  | .reading operand error => "Matrice " ++ operand.name ++ " : " ++ error.message
  | .operation error => error.message

namespace Operation

/-- The typed matrix, with an error that names it. -/
def readOperand (operand : Operand) (text : String) : Except CalculationError (DenseMatrix Float) :=
  (DenseMatrix.read text).mapError (.reading operand)

/-- What `operation` makes of the typed matrices. -/
def calculate (settings : Settings) (operation : Operation) (textA textB : String) :
    Except CalculationError (Computation Float) :=
  (readOperand .a textA).bind fun a =>
    (if operation.isBinary then (readOperand .b textB).map some else .ok none).bind fun b? =>
      (operation.apply settings.singularThreshold a b?).mapError .operation

end Operation

end DeskCalc
