import DeskCalc.Display.Number
import DeskCalc.Operation.Basic
import DeskCalc.Report.Filter

/-!
The journal records each inverse that is refused, with the determinant as it was computed. These warnings are the
only reports whose text is kept. Those about what was read and computed are below the level of the standard filter:
they stand among the reports, with their data, but are not written out.
-/

namespace DeskCalc

/-- A refused inverse. -/
structure JournalEntry (α : Type) where
  notice : Notice
  determinant : α
  shape : Shape

/-- The line of a warning. The time and the colours that a terminal adds are not part of it. -/
def JournalEntry.line (e : JournalEntry Float) : String :=
  let event := match e.notice with
    | .singular => "matrice singulière, inverse non calculée"
    | .outOfRange => "inverse hors plage des f64"
  Level.warn.name ++ " " ++ Part.operations.path ++ ": " ++ event ++ " det=" ++
    journalText e.determinant ++ " forme=" ++ e.shape.text

end DeskCalc
