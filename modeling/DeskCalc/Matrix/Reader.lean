import DeskCalc.Decimal.Reading
import DeskCalc.Matrix.Dense
import DeskCalc.Text.Blank
import DeskCalc.Text.Pieces

/-!
Reading a matrix from a text: one line is one row, its numbers stand between blanks and commas. Lines
without a number are passed over and not counted.
-/

namespace DeskCalc

/-- Why a text is no matrix. Lines are counted from one. -/
inductive ReadError
  | emptyInput
  | invalidNumber (piece : String) (line : Nat)
  | unequalLines (line expected found : Nat)
deriving DecidableEq, Repr

def ReadError.message : ReadError → String
  | .emptyInput => "Entrée vide : aucune ligne de nombres"
  | .invalidNumber piece line =>
    "Jeton invalide « " ++ piece ++ " » (ligne " ++ toString line ++ ") : nombre décimal attendu"
  | .unequalLines line expected found =>
    "Lignes de longueurs inégales : ligne " ++ toString line ++ " a " ++ toString found ++
      " valeur(s), " ++ toString expected ++ " attendue(s)"

namespace DenseMatrix

/-- What separates two numbers of a line. -/
def isSeparator (c : Char) : Bool := Text.isBlank c || c == ','

/-- The pieces of each line that has any. -/
def writtenRows (cs : List Char) : List (List (List Char)) :=
  ((Text.lines cs).map (Text.pieces isSeparator)).filter (!·.isEmpty)

/-- The numbers of one line, up to the first piece that is none. -/
def readRow (line : Nat) : List (List Char) → Except ReadError (List Float)
  | [] => .ok []
  | piece :: rest =>
    match readNumber? piece with
    | none => .error (.invalidNumber (String.ofList piece) line)
    | some x => (readRow line rest).map (x :: ·)

/-- The rows from line `line` on. `width?` is the length of the first row, once it is known. -/
def readRows (width? : Option Nat) (line : Nat) :
    List (List (List Char)) → Except ReadError (List (List Float))
  | [] => .ok []
  | pieces :: rest =>
    match readRow line pieces with
    | .error e => .error e
    | .ok row =>
      let width := width?.getD row.length
      if row.length = width then (readRows (some width) (line + 1) rest).map (row :: ·)
      else .error (.unequalLines line width row.length)

/-- The matrix that a text writes. -/
def read (text : String) : Except ReadError (DenseMatrix Float) :=
  match readRows none 1 (writtenRows text.toList) with
  | .error e => .error e
  | .ok rows =>
    match ofRows? rows with
    | some a => .ok a
    | none => .error .emptyInput

end DenseMatrix

end DeskCalc
