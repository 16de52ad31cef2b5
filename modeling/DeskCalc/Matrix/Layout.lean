import DeskCalc.Display.Number
import DeskCalc.Matrix.Dense
import DeskCalc.Text.Pieces

/-!
Writing a matrix: a line for each row, two spaces between its numbers.
-/

namespace DeskCalc.DenseMatrix

/-- The text of a matrix whose numbers have at most `digits` significant digits. -/
def text (a : DenseMatrix Float) (digits : Nat) : String :=
  String.ofList <| Text.joined ['\n'] <| a.toRows.map fun row =>
    Text.joined [' ', ' '] (row.map fun x => (generalText x digits).toList)

end DeskCalc.DenseMatrix
