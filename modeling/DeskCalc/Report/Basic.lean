import DeskCalc.Angle
import DeskCalc.Expression.Evaluation
import DeskCalc.Operation.Calculate
import DeskCalc.Report.Filter

/-!
What is reported while matrices are read, operations are applied, functions are computed and expressions are
evaluated. Each of these stages reports its own result and then hands on to the next one, so that the reports of a
calculation that fails end with those of the last stage that succeeded.
-/

namespace DeskCalc

inductive Report
  /-- A text was read as a matrix. -/
  | matrixRead (shape : Shape)
  /-- An inverse was refused. -/
  | refused (entry : JournalEntry Float)
  /-- An operation was applied to a first matrix of this shape. -/
  | applied (operation : Operation) (shape : Shape)
  | functionComputed (f : TrigFunction) (angle : Float) (unit : AngleUnit) (value : Float)
  | expressionComputed (text : String) (value : Float)
  | expressionRefused (text : String) (error : EvalError)

namespace Report

def level : Report → Level
  | refused _ => .warn
  | matrixRead _ | applied _ _ | functionComputed _ _ _ _ | expressionComputed _ _ | expressionRefused _ _ => .debug

def part : Report → Part
  | matrixRead _ => .reading
  | refused _ | applied _ _ => .operations
  | functionComputed _ _ _ _ => .functions
  | expressionComputed _ _ | expressionRefused _ _ => .expressions

def passes (filter : JournalFilter) (r : Report) : Bool := filter.passes r.level r.part.path

/-- The reports that the standard filter lets into the journal. -/
def written (reports : List Report) : List Report := reports.filter (·.passes .standard)

/-- The warning that a report is, if it is one. -/
def entry? : Report → Option (JournalEntry Float)
  | refused entry => some entry
  | _ => none

end Report

namespace Operation

/-- What is reported while `operation` is applied: a refused inverse, and at the end that it was applied. -/
def applyReports (threshold : Float) (operation : Operation) (a : DenseMatrix Float)
    (b? : Option (DenseMatrix Float)) : List Report :=
  match operation.apply threshold a b? with
  | .ok c => c.journal.map .refused ++ [.applied operation a.shape]
  | .error _ => []

/-- What is reported while `operation` is computed from the typed matrices. -/
def calculateReports (settings : Settings) (operation : Operation) (textA textB : String) : List Report :=
  match DenseMatrix.read textA with
  | .error _ => []
  | .ok a =>
    .matrixRead a.shape ::
      if operation.isBinary then
        match DenseMatrix.read textB with
        | .error _ => []
        | .ok b => .matrixRead b.shape :: operation.applyReports settings.singularThreshold a (some b)
      else operation.applyReports settings.singularThreshold a none

end Operation

/-- What is reported while a function is computed at a typed angle. A failure is not reported. -/
def TrigFunction.atAngleReports (f : TrigFunction) (text : String) (unit : AngleUnit) : List Report :=
  match readAngle text with
  | .error _ => []
  | .ok x =>
    match f.apply (unit.toRadians x) with
    | .error _ => []
    | .ok y => [.functionComputed f x unit y]

/-- What is reported while a typed expression is evaluated. A failure is reported too. -/
def Evaluation.reports (limit : Nat) (text : String) : List Report :=
  match ofText limit text with
  | .ok e => [.expressionComputed text e.value]
  | .error error => [.expressionRefused text error]

end DeskCalc
