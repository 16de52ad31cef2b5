import DeskCalc.Expression.Evaluation
import DeskCalc.Operation.Blocks
import DeskCalc.Operation.Calculate

/-!
What an action leaves to be shown: nothing yet, a message of failure, or titled blocks with at most one
notice.
-/

namespace DeskCalc

inductive Output
  | empty
  | failed (message : String)
  | shown (blocks : List Block) (notice? : Option Notice)
deriving DecidableEq

namespace Output

/-- A failure, announced as one. -/
def failure (message : String) : Output := failed ("Erreur : " ++ message)

def number (title : String) (x : Float) : Output := shown [⟨title, scalarText x⟩] none

/-- The result of an operation on matrices. -/
def ofCalculation (settings : Settings) : Except CalculationError (Computation Float) → Output
  | .ok c => shown (c.outcome.blocks settings) c.outcome.notice?
  | .error e => failure e.message

/-- A number under a title, or why there is none. -/
def ofValue (title : String) : Except EvalError Float → Output
  | .ok x => number title x
  | .error e => failure e.message

end Output

/-- The intermediate forms of an expression as they are shown. -/
structure Workings where
  tokens : String
  polish : String
  tree : String
deriving DecidableEq, Repr

def Workings.ofEvaluation (e : Evaluation) : Workings :=
  ⟨Token.listText e.tokens, Token.listText e.polish, e.tree.text⟩

end DeskCalc
