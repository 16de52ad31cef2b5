import DeskCalc.Proofs.Session.Run
import DeskCalc.Session.Desk

/-!
A session stands for a flat record, in which a slot holds what an output shows and nothing else, and workings that are
not there are blank. Every action does to the record what it does to the session, and both are aimed at the same
visible widgets. So what the panels say of a session holds of the record, where nothing but the buttons keeps a
message apart from blocks, and the workings in step with the value shown.
-/

namespace DeskCalc

/-- What stands in the slot of an output. -/
def Output.slot : Output → Slot
  | empty => {}
  | failed message => { message }
  | shown blocks notice? => { blocks, notice := (notice?.map Notice.text).getD "" }

theorem Slot.setBlocks_eq (blocks : List Block) (notice? : Option Notice) (o : Slot) :
    o.setBlocks blocks notice? = (Output.shown blocks notice?).slot := by
  cases notice? <;> rfl

theorem Slot.setCalculation_eq (settings : Settings) (result : Except CalculationError (Computation Float))
    (o : Slot) : o.setCalculation settings result = (Output.ofCalculation settings result).slot := by
  cases result with
  | ok c => exact o.setBlocks_eq (c.outcome.blocks settings) c.outcome.notice?
  | error e => rfl

namespace Session

/-- The flat record that a session stands for. -/
def desk (s : Session) : Desk where
  matrixTab := s.matrices.tab
  textA := s.matrices.textA
  textB := s.matrices.textB
  operation := s.matrices.operation
  operationSlot := s.matrices.operationOutput.slot
  textM := s.matrices.textM
  inverseSlot := s.matrices.inverseOutput.slot
  trigTab := s.trigonometry.tab
  function := s.trigonometry.function
  unit := s.trigonometry.unit
  angle := s.trigonometry.angle
  functionSlot := s.trigonometry.functionOutput.slot
  expression := s.trigonometry.expression
  expressionSlot := s.trigonometry.expressionOutput.slot
  workings := s.trigonometry.workings?.getD .blank
  settings := s.settings

/-! ### Buttons -/

variable (s : Session)

theorem desk_calculate : (s.perform (.matrices .calculate)).desk = s.desk.calculate := by
  rw [Desk.calculate, Slot.setCalculation_eq]
  rfl

theorem desk_invert : (s.perform (.matrices .invert)).desk = s.desk.invert := by
  rw [Desk.invert, Slot.setCalculation_eq]
  rfl

theorem desk_calculateFunction :
    { s with trigonometry := s.trigonometry.calculate }.desk = s.desk.calculateFunction := by
  unfold Desk.calculateFunction
  dsimp only [desk, TrigPanel.calculate]
  cases s.trigonometry.function.atAngle s.trigonometry.angle s.trigonometry.unit with
  | ok y => rfl
  | error e => rfl

theorem desk_evaluate (limit : Nat) (wanted : Bool) :
    { s with trigonometry := s.trigonometry.evaluate limit wanted }.desk = s.desk.evaluateUnder limit wanted := by
  unfold Desk.evaluateUnder
  dsimp only [desk, TrigPanel.evaluate]
  cases Evaluation.ofText limit s.trigonometry.expression with
  | ok e => cases wanted <;> rfl
  | error e => cases wanted <;> rfl

theorem desk_clearVisible : (s.perform .clearVisible).desk = s.desk.clearVisible := by
  obtain ⟨⟨matrixTab, textA, textB, operation, operationOutput, textM, inverseOutput⟩,
    ⟨trigTab, f, unit, angle, functionOutput, expression, expressionOutput, workings?⟩, settings⟩ := s
  cases matrixTab <;> cases trigTab <;> rfl

/-! ### Steps and runs -/

theorem onMatrices?_desk (action : MatrixAction) :
    s.desk.onMatrices? action =
      if s.shows (.matrices action) then some (s.perform (.matrices action)).desk else none := by
  obtain ⟨⟨matrixTab, textA, textB, operation, operationOutput, textM, inverseOutput⟩, p, settings⟩ := s
  cases action with
  | typeA | typeB | typeM | openTab => rfl
  | choose operation => cases matrixTab <;> rfl
  | calculate =>
      cases matrixTab with
      | operations => exact congrArg some (desk_calculate _).symm
      | inverse => rfl
  | invert =>
      cases matrixTab with
      | operations => rfl
      | inverse => exact congrArg some (desk_invert _).symm

theorem onTrigonometry?_desk (action : TrigAction) :
    s.desk.onTrigonometry? action =
      if s.shows (.trigonometry action) then some (s.perform (.trigonometry action)).desk else none := by
  obtain ⟨m, ⟨trigTab, f, unit, angle, functionOutput, expression, expressionOutput, workings?⟩, settings⟩ := s
  cases action with
  | typeAngle | typeExpression | openTab => rfl
  | chooseFunction | chooseUnit => cases trigTab <;> rfl
  | calculate =>
      cases trigTab with
      | function => exact congrArg some (desk_calculateFunction _).symm
      | expression => rfl
  | evaluate =>
      cases trigTab with
      | function => rfl
      | expression => exact congrArg some (desk_evaluate _ _ false).symm
  | explain =>
      cases trigTab with
      | function => rfl
      | expression => exact congrArg some (desk_evaluate _ _ true).symm
  | enter =>
      cases trigTab with
      | function => exact congrArg some (desk_calculateFunction _).symm
      | expression => exact congrArg some (desk_evaluate _ _ false).symm

theorem perform?_desk (action : Action) :
    s.desk.perform? action = if s.shows action then some (s.perform action).desk else none := by
  cases action with
  | matrices action => exact s.onMatrices?_desk action
  | trigonometry action => exact s.onTrigonometry?_desk action
  | changeSettings | clearAll => rfl
  | clearVisible => exact congrArg some s.desk_clearVisible.symm

/-- An action does to the flat record what it does to the session, and is carried out in both or in neither. -/
theorem desk_step (action : Action) : s.desk.step action = ((s.step action).session.desk, (s.step action).done) := by
  rw [Desk.step, perform?_desk]
  cases hshown : s.shows action with
  | true =>
      rw [step_of_shows hshown]
      rfl
  | false =>
      rw [step_of_not_shows hshown]
      rfl

theorem desk_run (actions : List Action) : s.desk.run actions = (s.run actions).desk := by
  induction actions generalizing s with
  | nil => rfl
  | cons action rest ih =>
      have hstep : (s.desk.step action).1 = (s.step action).session.desk := congrArg Prod.fst (s.desk_step action)
      rw [Desk.run, List.foldl_cons, hstep]
      exact ih (s.step action).session

end Session

theorem Desk.run_start (actions : List Action) : run {} actions = (Session.run {} actions).desk :=
  Session.desk_run {} actions

end DeskCalc
