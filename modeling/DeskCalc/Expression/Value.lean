import DeskCalc.Expression.Tree

/-!
The value of an expression. Every operation checks its result, so that a value which is no finite number
is an error where it arises and never an operand.
-/

namespace DeskCalc

/-- The value `y` of a function at `x`, if it is a finite number. -/
def Elementary.checked (f : Elementary) (x y : Float) : Except EvalError Float :=
  if y.isNaN then .error (.domain (.outside f x))
  else if y.isInf then .error (.notFinite (.function f x))
  else .ok y

def TrigFunction.apply (f : TrigFunction) (x : Float) : Except EvalError Float :=
  Elementary.checked (.trig f) x (f.eval x)

def Elementary.apply (f : Elementary) (x : Float) : Except EvalError Float :=
  match f with
  | trig t => t.apply x
  | sqrt => if x < 0 then .error (.domain (.negativeRoot x)) else sqrt.checked x x.sqrt
  | log => if x ≤ 0 then .error (.domain (.nonPositiveLog x)) else log.checked x x.log
  | exp => exp.checked x x.exp

/-- The power of two real numbers. Zero has no negative powers, and a negative number has whole powers
only. -/
def power (a b : Float) : Except EvalError Float :=
  if a == 0 && b < 0 then .error .divisionByZero
  else if a < 0 && !Binary64.isWhole b then .error (.domain (.fractionalPower a b))
  else .ok (a.pow b)

/-- The result of an operation, before it is known to be finite. -/
def BinaryOperator.compute (op : BinaryOperator) (a b : Float) : Except EvalError Float :=
  match op with
  | .add => .ok (a + b)
  | .sub => .ok (a - b)
  | .mul => .ok (a * b)
  | .div => if b == 0 then .error .divisionByZero else .ok (a / b)
  | .pow => power a b

def BinaryOperator.apply (op : BinaryOperator) (a b : Float) : Except EvalError Float :=
  match op.compute a b with
  | .error e => .error e
  | .ok y => if y.isFinite then .ok y else .error (.notFinite (.operation op a b))

/-- The value of an expression; of two operands the left one is computed first. -/
def Expression.value : Expression → Except EvalError Float
  | number v => if v.isFinite then .ok v else .error (.notFinite .literal)
  | constant c => .ok c.value
  | negative e => e.value.map (- ·)
  | binary op a b => do
    let x ← a.value
    let y ← b.value
    op.apply x y
  | call f e => e.value.bind f.apply

end DeskCalc
