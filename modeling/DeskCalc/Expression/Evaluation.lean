import DeskCalc.Expression.Lexer
import DeskCalc.Expression.Polish
import DeskCalc.Expression.Value

/-!
From a typed expression to its value, with every intermediate form. The text is checked before it is cut
into tokens, the tokens before they are computed with: an earlier stage's fault is the one reported.
-/

namespace DeskCalc

/-- A value and the forms that led to it. -/
structure Evaluation where
  tokens : List Token
  polish : List Token
  tree : Expression
  value : Float

namespace Evaluation

/-- Whether two underscores follow each other, which no expression may hold. -/
def hasDoubleUnderscore : List Char → Bool
  | '_' :: '_' :: _ => true
  | _ :: rest => hasDoubleUnderscore rest
  | [] => false

/-- The tokens of a typed expression, which must not be blank. -/
def lex (cs : List Char) : Except SyntaxFault (List Token) :=
  let trimmed := Text.trim cs
  if trimmed.isEmpty then .error .emptyInput else Token.lex trimmed

/-- The forms of a typed expression. -/
def parse (cs : List Char) : Except SyntaxFault (List Token × List Token × Expression) := do
  let tokens ← lex cs
  let polish ← Token.toPolish tokens
  let tree ← Expression.ofPolish polish
  return (tokens, polish, tree)

/-- The value of a typed expression of at most `limit` characters. -/
def ofText (limit : Nat) (text : String) : Except EvalError Evaluation :=
  let cs := text.toList
  if hasDoubleUnderscore cs then .error .doubleUnderscore
  else if limit < cs.length then .error (.tooLong cs.length limit)
  else
    match parse cs with
    | .error fault => .error (.malformed fault)
    | .ok (tokens, polish, tree) => tree.value.map (⟨tokens, polish, tree, ·⟩)

end Evaluation

end DeskCalc
