/-!
The names that an expression may use: functions of one argument and two constants. No other name has a
meaning.
-/

namespace DeskCalc

inductive TrigFunction
  | sin
  | cos
  | tan
  | asin
  | acos
  | atan
  | sinh
  | cosh
  | tanh
deriving DecidableEq, Repr

namespace TrigFunction

/-- All of them, in the order of the list to choose from. -/
def all : List TrigFunction := [sin, cos, tan, asin, acos, atan, sinh, cosh, tanh]

def name : TrigFunction → String
  | sin => "sin"
  | cos => "cos"
  | tan => "tan"
  | asin => "asin"
  | acos => "acos"
  | atan => "atan"
  | sinh => "sinh"
  | cosh => "cosh"
  | tanh => "tanh"

def ofName? (s : String) : Option TrigFunction := all.find? fun f => f.name == s

/-- The value at `x`, which may fail to be a finite number. -/
def eval : TrigFunction → Float → Float
  | sin => Float.sin
  | cos => Float.cos
  | tan => Float.tan
  | asin => Float.asin
  | acos => Float.acos
  | atan => Float.atan
  | sinh => Float.sinh
  | cosh => Float.cosh
  | tanh => Float.tanh

end TrigFunction

inductive Elementary
  | trig (f : TrigFunction)
  | sqrt
  | log
  | exp
deriving DecidableEq, Repr

def Elementary.name : Elementary → String
  | .trig f => f.name
  | .sqrt => "sqrt"
  | .log => "log"
  | .exp => "exp"

inductive Constant
  | pi
  | e
deriving DecidableEq, Repr

namespace Constant

def name : Constant → String
  | pi => "pi"
  | e => "e"

/-- The nearest double. -/
def value : Constant → Float
  | pi => 3.141592653589793
  | e => 2.718281828459045

end Constant

inductive Name
  | function (f : Elementary)
  | constant (c : Constant)
deriving DecidableEq, Repr

namespace Name

def all : List Name :=
  TrigFunction.all.map (fun f => function (.trig f)) ++
    [function .sqrt, function .log, function .exp, constant .pi, constant .e]

def text : Name → String
  | function f => f.name
  | constant c => c.name

/-- The meaning of a name; upper and lower case differ. -/
def ofText? (s : String) : Option Name := all.find? fun n => n.text == s

theorem text_of_ofText? {s : String} {n : Name} (h : ofText? s = some n) : n.text = s := by
  simpa using List.find?_some h

end Name

end DeskCalc
