import DeskCalc.Display.Number
import DeskCalc.Expression.Name

/-!
Tokens, both as an expression is typed and as its reverse Polish form lists them. The signs occur in
the second form only: there a minus before an operand is told from a minus between two.
-/

namespace DeskCalc

inductive BinaryOperator
  | add
  | sub
  | mul
  | div
  | pow
deriving DecidableEq, Repr

def BinaryOperator.symbol : BinaryOperator → String
  | .add => "+"
  | .sub => "-"
  | .mul => "*"
  | .div => "/"
  | .pow => "**"

/-- A plus or minus before its operand. -/
inductive Sign
  | plus
  | minus
deriving DecidableEq, Repr

inductive Token
  | number (value : Float)
  | constant (c : Constant)
  | call (f : Elementary)
  | operator (op : BinaryOperator)
  | sign (s : Sign)
  | opening
  | closing
deriving DecidableEq

namespace Token

def text : Token → String
  | number v => plainText v
  | constant c => c.name
  | call f => f.name
  | operator op => op.symbol
  | sign .plus => "pos"
  | sign .minus => "neg"
  | opening => "("
  | closing => ")"

def ofName : Name → Token
  | .function f => call f
  | .constant c => constant c

/-- The texts of the tokens, one blank between neighbours. -/
def listText (tokens : List Token) : String := " ".intercalate (tokens.map text)

end Token

end DeskCalc
