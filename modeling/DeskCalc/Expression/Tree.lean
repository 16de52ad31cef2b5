import DeskCalc.Expression.Fault

/-!
Expressions as trees, built from their reverse Polish form on a stack of finished subtrees.
-/

namespace DeskCalc

inductive Expression
  | number (value : Float)
  | constant (c : Constant)
  | negative (operand : Expression)
  | binary (op : BinaryOperator) (left right : Expression)
  | call (f : Elementary) (argument : Expression)
deriving DecidableEq

namespace Expression

/-- The tree in full parentheses. A minus is written before its operand and has none. -/
def text : Expression → String
  | number v => plainText v
  | constant c => c.name
  | negative e => "-" ++ e.text
  | binary op a b => "(" ++ a.text ++ " " ++ op.symbol ++ " " ++ b.text ++ ")"
  | call f e => f.name ++ "(" ++ e.text ++ ")"

/-- The stack after one token of a reverse Polish form. A plus sign leaves its operand as it is, but it
must have one. -/
def push (stack : List Expression) : Token → Except SyntaxFault (List Expression)
  | .number v => .ok (number v :: stack)
  | .constant c => .ok (constant c :: stack)
  | .operator op =>
    match stack with
    | b :: a :: rest => .ok (binary op a b :: rest)
    | _ => .error .unbalanced
  | .sign .minus =>
    match stack with
    | e :: rest => .ok (negative e :: rest)
    | [] => .error .minusWithoutOperand
  | .sign .plus =>
    match stack with
    | [] => .error .plusWithoutOperand
    | _ :: _ => .ok stack
  | .call f =>
    match stack with
    | e :: rest => .ok (call f e :: rest)
    | [] => .error .functionWithoutArgument
  | .opening => .error .parenthesisInPolish
  | .closing => .error .parenthesisInPolish

/-- The tree that a reverse Polish form lists. -/
def ofPolish (tokens : List Token) : Except SyntaxFault Expression :=
  match tokens.foldlM push [] with
  | .error fault => .error fault
  | .ok [e] => .ok e
  | .ok _ => .error .unbalanced

end Expression

end DeskCalc
