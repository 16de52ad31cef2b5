import DeskCalc.Expression.Fault

/-!
Reverse Polish form. The tokens are read once from left to right; what still waits for an operand or for
its closing parenthesis is kept on a stack of pending entries, and each entry is written out when nothing
to its right can bind tighter. A sign binds tighter than `*` and looser than `**`, which groups to the
right.
-/

namespace DeskCalc

/-- How tightly an operator binds. -/
def BinaryOperator.strength : BinaryOperator → Nat
  | .add | .sub => 1
  | .mul | .div => 2
  | .pow => 4

/-- The sign that an operator is in the place of an operand. -/
def BinaryOperator.sign? : BinaryOperator → Option Sign
  | .add => some .plus
  | .sub => some .minus
  | _ => none

/-- What waits for its operand or its closing parenthesis. -/
inductive Pending
  | opening
  | call (f : Elementary)
  | sign (s : Sign)
  | operator (op : BinaryOperator)
deriving DecidableEq

namespace Pending

def token : Pending → Token
  | opening => .opening
  | call f => .call f
  | sign s => .sign s
  | operator op => .operator op

/-- Whether the entry is complete once `op` follows its last operand. Nothing is complete before the
parenthesis or function it stands for is closed. -/
def yieldsTo (op : BinaryOperator) : Pending → Bool
  | opening | call _ => false
  | sign _ => op.strength ≤ 3
  | operator top => if op = .pow then op.strength < top.strength else op.strength ≤ top.strength

end Pending

structure Yard where
  /-- What has been written out, the latest first. -/
  output : List Token := []
  /-- What is pending, the latest first. -/
  pending : List Pending := []
  /-- Whether the next token has to begin an operand. -/
  expectsOperand : Bool := true

namespace Yard

def depthLimit : Nat := 256

/-- Writes out what is complete before `op`. -/
def release (op : BinaryOperator) : List Pending → List Token → List Pending × List Token
  | [], output => ([], output)
  | top :: rest, output =>
    if top.yieldsTo op then release op rest (top.token :: output) else (top :: rest, output)

/-- Writes out what is pending in the innermost parenthesis, and the function that it belongs to. -/
def close? : List Pending → List Token → Option (List Pending × List Token)
  | [], _ => none
  | .opening :: .call f :: rest, output => some (rest, .call f :: output)
  | .opening :: rest, output => some (rest, output)
  | top :: rest, output => close? rest (top.token :: output)

def opensGroup : List Token → Bool
  | .opening :: _ => true
  | _ => false

/-- The state after one token, of which `rest` are the tokens that follow. -/
def step (s : Yard) (rest : List Token) : Token → Except SyntaxFault Yard
  | .number v =>
    if s.expectsOperand then .ok { s with output := .number v :: s.output, expectsOperand := false }
    else .error .missingOperator
  | .constant c =>
    if s.expectsOperand then .ok { s with output := .constant c :: s.output, expectsOperand := false }
    else .error .missingOperator
  | .call f =>
    if !s.expectsOperand then .error (.unexpectedFunction f)
    else if opensGroup rest then .ok { s with pending := .call f :: s.pending }
    else .error (.functionWithoutParenthesis f)
  | .opening =>
    if s.expectsOperand then .ok { s with pending := .opening :: s.pending }
    else .error .callOnValue
  | .closing =>
    if s.expectsOperand then .error .missingOperand
    else
      match close? s.pending s.output with
      | some (pending, output) => .ok ⟨output, pending, false⟩
      | none => .error .unmatchedClosing
  | .operator op =>
    if s.expectsOperand then
      match op.sign? with
      | some sign => .ok { s with pending := .sign sign :: s.pending }
      | none => .error .missingLeftOperand
    else
      let released := release op s.pending s.output
      .ok ⟨released.2, .operator op :: released.1, true⟩
  | .sign _ => .error .signInInput

/-- Writes out what is still pending at the end. -/
def drain : List Pending → List Token → Except SyntaxFault (List Token)
  | [], output => .ok output.reverse
  | .opening :: _, _ => .error .unclosedParenthesis
  | .call _ :: _, _ => .error .unclosedParenthesis
  | top :: rest, output => drain rest (top.token :: output)

/-- The reverse Polish form of the remaining tokens after what the state holds. -/
def run (s : Yard) : List Token → Except SyntaxFault (List Token)
  | [] => if s.expectsOperand then .error .incomplete else drain s.pending s.output
  | t :: rest =>
    match s.step rest t with
    | .error fault => .error fault
    | .ok s' => if depthLimit < s'.pending.length then .error .nestedTooDeeply else run s' rest

end Yard

def Token.toPolish (tokens : List Token) : Except SyntaxFault (List Token) := Yard.run {} tokens

end DeskCalc
