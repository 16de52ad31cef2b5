import DeskCalc.Report.Basic
import DeskCalc.Session.Output

/-!
The trigonometric half of a session: one tab for a function of an angle, one for expressions. An expression
is evaluated under the default limit; when its workings are asked for, under the limit of the settings.
-/

namespace DeskCalc

inductive TrigTab
  | function
  | expression
deriving DecidableEq, Repr

structure TrigPanel where
  tab : TrigTab := .function
  function : TrigFunction := .sin
  unit : AngleUnit := .degrees
  angle : String := "30"
  functionOutput : Output := .empty
  expression : String := "sin(pi/6) + cos(pi/3)"
  expressionOutput : Output := .empty
  /-- The intermediate forms of the value shown, if they were asked for. -/
  workings? : Option Workings := none

/-- What a user can do to the trigonometric half. -/
inductive TrigAction
  | typeAngle (text : String)
  | typeExpression (text : String)
  | openTab (tab : TrigTab)
  | chooseFunction (f : TrigFunction)
  | chooseUnit (unit : AngleUnit)
  | calculate
  | evaluate
  | explain
  /-- The return key in the text field of the open tab. -/
  | enter

/-- The tab that an action needs to be open, if it needs one. -/
def TrigAction.tab? : TrigAction → Option TrigTab
  | chooseFunction _ | chooseUnit _ | calculate => some .function
  | evaluate | explain => some .expression
  | typeAngle _ | typeExpression _ | openTab _ | enter => none

namespace TrigPanel

/-- The panel with the value of the function at the typed angle. -/
def calculate (p : TrigPanel) : TrigPanel :=
  { p with functionOutput := .ofValue p.function.name (p.function.atAngle p.angle p.unit) }

def expressionTitle : String := "Résultat de l’expression"

/-- The panel with the value of the typed expression, of at most `limit` characters, and its workings
if they are wanted. -/
def evaluate (limit : Nat) (wanted : Bool) (p : TrigPanel) : TrigPanel :=
  let result := Evaluation.ofText limit p.expression
  { p with
    expressionOutput := .ofValue expressionTitle (result.map Evaluation.value)
    workings? := if wanted then result.toOption.map Workings.ofEvaluation else none }

/-- The limit on an expression whose workings are not asked for. -/
def defaultLimit : Nat := ({} : Settings).expressionLimit

/-- The panel after a visible action. -/
def perform (settings : Settings) (p : TrigPanel) : TrigAction → TrigPanel
  | .typeAngle text => { p with angle := text }
  | .typeExpression text => { p with expression := text }
  | .openTab tab => { p with tab }
  | .chooseFunction f => { p with function := f }
  | .chooseUnit unit => { p with unit }
  | .calculate => p.calculate
  | .evaluate => p.evaluate defaultLimit false
  | .explain => p.evaluate settings.expressionLimit true
  | .enter =>
    match p.tab with
    | .function => p.calculate
    | .expression => p.evaluate defaultLimit false

/-- What is reported while a visible action is carried out. -/
def reports (settings : Settings) (p : TrigPanel) : TrigAction → List Report
  | .calculate => p.function.atAngleReports p.angle p.unit
  | .evaluate => Evaluation.reports defaultLimit p.expression
  | .explain => Evaluation.reports settings.expressionLimit p.expression
  | .enter =>
    match p.tab with
    | .function => p.function.atAngleReports p.angle p.unit
    | .expression => Evaluation.reports defaultLimit p.expression
  | .typeAngle _ | .typeExpression _ | .openTab _ | .chooseFunction _ | .chooseUnit _ => []

/-- The panel with the outputs of the open tab removed. -/
def clearVisible (p : TrigPanel) : TrigPanel :=
  match p.tab with
  | .function => { p with functionOutput := .empty }
  | .expression => { p with expressionOutput := .empty, workings? := none }

end TrigPanel

end DeskCalc
