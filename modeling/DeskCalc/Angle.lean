import DeskCalc.Decimal.Reading
import DeskCalc.Expression.Value
import DeskCalc.Text.Blank

/-!
Angles: a typed number in degrees or radians, and a trigonometric function of it.
-/

namespace DeskCalc

inductive AngleUnit
  | degrees
  | radians
deriving DecidableEq, Repr

namespace AngleUnit

/-- Both units, in the order of the list to choose from. -/
def all : List AngleUnit := [degrees, radians]

def label : AngleUnit → String
  | degrees => "Degrés"
  | radians => "Radians"

/-- An angle in radians. One degree is rounded to a double before it is multiplied. -/
def toRadians : AngleUnit → Float → Float
  | degrees, x => x * (Constant.pi.value / 180)
  | radians, x => x

end AngleUnit

/-- The number typed as an angle; blanks around it are ignored. -/
def readAngle (text : String) : Except EvalError Float :=
  let trimmed := Text.trim text.toList
  match readNumber? trimmed with
  | some x => .ok x
  | none => .error (.invalidNumber (String.ofList trimmed))

def TrigFunction.atAngle (f : TrigFunction) (text : String) (unit : AngleUnit) :
    Except EvalError Float :=
  (readAngle text).bind fun x => f.apply (unit.toRadians x)

end DeskCalc
