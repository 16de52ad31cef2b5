import DeskCalc.Session.State

/-!
A session as one flat record. Each output is a slot of blocks, a notice and a message, which are cleared and written
one by one; the workings of an expression are texts that are empty until they are asked for; and a button writes the
fields that it is about, whatever stands in the others. What is possible for the panels by their types only is here a
matter of what the buttons write.
-/

namespace DeskCalc

/-- The place of an output. Whatever is not shown is empty. -/
structure Slot where
  blocks : List Block := []
  notice : String := ""
  message : String := ""
deriving DecidableEq

namespace Slot

def clear (o : Slot) : Slot := { o with blocks := [], notice := "", message := "" }

/-- A message takes the place of all that was shown. -/
def setMessage (message : String) (o : Slot) : Slot := { o.clear with message }

/-- Blocks, and perhaps a notice, take the place of all that was shown. -/
def setBlocks (blocks : List Block) (notice? : Option Notice) (o : Slot) : Slot :=
  let o := { o.clear with blocks }
  match notice? with
  | some notice => { o with notice := notice.text }
  | none => o

/-- The result of an operation on matrices, or why there is none. -/
def setCalculation (settings : Settings) (result : Except CalculationError (Computation Float)) (o : Slot) : Slot :=
  match result with
  | .ok c => o.setBlocks (c.outcome.blocks settings) c.outcome.notice?
  | .error e => o.setMessage ("Erreur : " ++ e.message)

end Slot

/-- No workings. -/
def Workings.blank : Workings := ⟨"", "", ""⟩

structure Desk where
  matrixTab : MatrixTab := .operations
  textA : String := "1 2\n3 4"
  textB : String := "5 6\n7 8"
  operation : Operation := .addition
  operationSlot : Slot := {}
  textM : String := "2 1\n5 3"
  inverseSlot : Slot := {}
  trigTab : TrigTab := .function
  function : TrigFunction := .sin
  unit : AngleUnit := .degrees
  angle : String := "30"
  functionSlot : Slot := {}
  expression : String := "sin(pi/6) + cos(pi/3)"
  expressionSlot : Slot := {}
  /-- Blank until workings are asked for. -/
  workings : Workings := .blank
  settings : Settings := Settings.clamped {}

namespace Desk

/-! ### Buttons -/

def calculate (d : Desk) : Desk :=
  { d with
    operationSlot :=
      d.operationSlot.setCalculation d.settings (d.operation.calculate d.settings d.textA d.textB) }

def invert (d : Desk) : Desk :=
  { d with
    inverseSlot := d.inverseSlot.setCalculation d.settings (Operation.inverse.calculate d.settings d.textM "") }

def calculateFunction (d : Desk) : Desk :=
  match d.function.atAngle d.angle d.unit with
  | .ok y => { d with functionSlot := d.functionSlot.setBlocks [⟨d.function.name, scalarText y⟩] none }
  | .error e => { d with functionSlot := d.functionSlot.setMessage ("Erreur : " ++ e.message) }

/-- The value of an expression is shown. The workings are left as they are. -/
def showValue (x : Float) (d : Desk) : Desk :=
  { d with expressionSlot := d.expressionSlot.setBlocks [⟨"Résultat de l’expression", scalarText x⟩] none }

/-- An expression is refused, and workings that were shown are not those of anything any more. -/
def refuseExpression (message : String) (d : Desk) : Desk :=
  { d with expressionSlot := d.expressionSlot.setMessage message, workings := .blank }

/-- The expression is evaluated under a limit. Workings are shown if they are wanted, and otherwise removed. -/
def evaluateUnder (limit : Nat) (wanted : Bool) (d : Desk) : Desk :=
  match Evaluation.ofText limit d.expression with
  | .ok e => { d.showValue e.value with workings := if wanted then .ofEvaluation e else .blank }
  | .error e => d.refuseExpression ("Erreur : " ++ e.message)

def evaluate (d : Desk) : Desk := d.evaluateUnder TrigPanel.defaultLimit false

def explain (d : Desk) : Desk := d.evaluateUnder d.settings.expressionLimit true

/-- The slots of the two open tabs are cleared. -/
def clearVisible (d : Desk) : Desk :=
  let d :=
    match d.matrixTab with
    | .operations => { d with operationSlot := d.operationSlot.clear }
    | .inverse => { d with inverseSlot := d.inverseSlot.clear }
  match d.trigTab with
  | .function => { d with functionSlot := d.functionSlot.clear }
  | .expression => { d with expressionSlot := d.expressionSlot.clear, workings := .blank }

/-! ### Actions -/

/-- What the matrix half makes of an action, if it shows what the action is aimed at. -/
def onMatrices? (d : Desk) (action : MatrixAction) : Option Desk :=
  match action, d.matrixTab with
  | .typeA text, _ => some { d with textA := text }
  | .typeB text, _ => some { d with textB := text }
  | .typeM text, _ => some { d with textM := text }
  | .openTab tab, _ => some { d with matrixTab := tab }
  | .choose operation, .operations => some { d with operation }
  | .calculate, .operations => some d.calculate
  | .invert, .inverse => some d.invert
  | .choose _, .inverse | .calculate, .inverse | .invert, .operations => none

/-- What the trigonometric half makes of an action, if it shows what the action is aimed at. -/
def onTrigonometry? (d : Desk) (action : TrigAction) : Option Desk :=
  match action, d.trigTab with
  | .typeAngle text, _ => some { d with angle := text }
  | .typeExpression text, _ => some { d with expression := text }
  | .openTab tab, _ => some { d with trigTab := tab }
  | .chooseFunction f, .function => some { d with function := f }
  | .chooseUnit unit, .function => some { d with unit }
  | .calculate, .function | .enter, .function => some d.calculateFunction
  | .evaluate, .expression | .enter, .expression => some d.evaluate
  | .explain, .expression => some d.explain
  | .chooseFunction _, .expression | .chooseUnit _, .expression | .calculate, .expression
  | .evaluate, .function | .explain, .function => none

def perform? (d : Desk) : Action → Option Desk
  | .matrices action => d.onMatrices? action
  | .trigonometry action => d.onTrigonometry? action
  | .changeSettings settings => some { d with settings }
  | .clearAll => some {}
  | .clearVisible => some d.clearVisible

/-- The desk after an action, and whether what the action is aimed at was visible. -/
def step (d : Desk) (action : Action) : Desk × Bool :=
  match d.perform? action with
  | some d' => (d', true)
  | none => (d, false)

/-- The desk after a run. -/
def run (d : Desk) (actions : List Action) : Desk := actions.foldl (fun d action => (d.step action).1) d

end Desk

end DeskCalc
