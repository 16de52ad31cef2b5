import DeskCalc.Report.Basic
import DeskCalc.Session.Output

/-!
The matrix half of a session: two tabs, one for the operations on `A` and `B`, one for the determinant and
inverse of a third matrix. Each tab has its own output.
-/

namespace DeskCalc

inductive MatrixTab
  | operations
  | inverse
deriving DecidableEq, Repr

structure MatrixPanel where
  tab : MatrixTab := .operations
  textA : String := "1 2\n3 4"
  textB : String := "5 6\n7 8"
  operation : Operation := .addition
  operationOutput : Output := .empty
  textM : String := "2 1\n5 3"
  inverseOutput : Output := .empty

/-- What a user can do to the matrix half. -/
inductive MatrixAction
  | typeA (text : String)
  | typeB (text : String)
  | typeM (text : String)
  | openTab (tab : MatrixTab)
  | choose (operation : Operation)
  | calculate
  | invert

/-- The tab that an action needs to be open, if it needs one. -/
def MatrixAction.tab? : MatrixAction → Option MatrixTab
  | choose _ | calculate => some .operations
  | invert => some .inverse
  | typeA _ | typeB _ | typeM _ | openTab _ => none

namespace MatrixPanel

/-- The panel after a visible action. -/
def perform (settings : Settings) (p : MatrixPanel) : MatrixAction → MatrixPanel
  | .typeA text => { p with textA := text }
  | .typeB text => { p with textB := text }
  | .typeM text => { p with textM := text }
  | .openTab tab => { p with tab }
  | .choose operation => { p with operation }
  | .calculate =>
    { p with operationOutput := .ofCalculation settings (p.operation.calculate settings p.textA p.textB) }
  | .invert => { p with inverseOutput := .ofCalculation settings (Operation.inverse.calculate settings p.textM "") }

/-- What is reported while a visible action is carried out. -/
def reports (settings : Settings) (p : MatrixPanel) : MatrixAction → List Report
  | .calculate => p.operation.calculateReports settings p.textA p.textB
  | .invert => Operation.inverse.calculateReports settings p.textM ""
  | .typeA _ | .typeB _ | .typeM _ | .openTab _ | .choose _ => []

/-- The panel with the output of the open tab removed. -/
def clearVisible (p : MatrixPanel) : MatrixPanel :=
  match p.tab with
  | .operations => { p with operationOutput := .empty }
  | .inverse => { p with inverseOutput := .empty }

end MatrixPanel

end DeskCalc
