import DeskCalc.Angle
import DeskCalc.Binary64.Basic
import DeskCalc.Binary64.Nearest
import DeskCalc.Binary64.Power
import DeskCalc.Binary64.Rounded
import DeskCalc.Binary64.Shortest
import DeskCalc.Decimal.Basic
import DeskCalc.Decimal.Layout
import DeskCalc.Decimal.Numeral
import DeskCalc.Decimal.Reading
import DeskCalc.Display.Number
import DeskCalc.Expression.Evaluation
import DeskCalc.Expression.Fault
import DeskCalc.Expression.Lexer
import DeskCalc.Expression.Name
import DeskCalc.Expression.Polish
import DeskCalc.Expression.Token
import DeskCalc.Expression.Tree
import DeskCalc.Expression.Value
import DeskCalc.Matrix.Arithmetic
import DeskCalc.Matrix.Dense
import DeskCalc.Matrix.Elimination
import DeskCalc.Matrix.Grid
import DeskCalc.Matrix.Inverse
import DeskCalc.Matrix.Layout
import DeskCalc.Matrix.Rank
import DeskCalc.Matrix.Reader
import DeskCalc.Matrix.Scalar
import DeskCalc.Operation.Apply
import DeskCalc.Operation.Basic
import DeskCalc.Operation.Blocks
import DeskCalc.Operation.Calculate
import DeskCalc.Operation.Journal
import DeskCalc.Proofs.Angle
import DeskCalc.Proofs.Binary64.Maximum
import DeskCalc.Proofs.Binary64.Nearest
import DeskCalc.Proofs.Binary64.Order
import DeskCalc.Proofs.Binary64.Shortest
import DeskCalc.Proofs.Binary64.Significant
import DeskCalc.Proofs.Binary64.Spacing
import DeskCalc.Proofs.Binary64.Word
import DeskCalc.Proofs.Decimal.Acceptance
import DeskCalc.Proofs.Decimal.Numeral
import DeskCalc.Proofs.Decimal.Reading
import DeskCalc.Proofs.Decimal.Rounding
import DeskCalc.Proofs.Decimal.Value
import DeskCalc.Proofs.Display.General
import DeskCalc.Proofs.Display.Number
import DeskCalc.Proofs.Display.Places
import DeskCalc.Proofs.Display.Scalar
import DeskCalc.Proofs.Display.TwiceRounded
import DeskCalc.Proofs.Expression.Barrier
import DeskCalc.Proofs.Expression.Conservation
import DeskCalc.Proofs.Expression.Depth
import DeskCalc.Proofs.Expression.Derivation
import DeskCalc.Proofs.Expression.Finiteness
import DeskCalc.Proofs.Expression.Lexing
import DeskCalc.Proofs.Expression.Listing
import DeskCalc.Proofs.Expression.LongestMatch
import DeskCalc.Proofs.Expression.Outcome
import DeskCalc.Proofs.Expression.Parsing
import DeskCalc.Proofs.Expression.PolishForm
import DeskCalc.Proofs.Expression.Rendering
import DeskCalc.Proofs.Expression.RoundTrip
import DeskCalc.Proofs.Expression.StackMachine
import DeskCalc.Proofs.Expression.TokenText
import DeskCalc.Proofs.Matrix.CheckedColumns
import DeskCalc.Proofs.Matrix.CheckedElimination
import DeskCalc.Proofs.Matrix.CheckedInverse
import DeskCalc.Proofs.Matrix.Determinant
import DeskCalc.Proofs.Matrix.Growth
import DeskCalc.Proofs.Matrix.Inverse
import DeskCalc.Proofs.Matrix.Layout
import DeskCalc.Proofs.Matrix.Product
import DeskCalc.Proofs.Matrix.Reading
import DeskCalc.Proofs.Matrix.RelativeColumns
import DeskCalc.Proofs.Matrix.Rotation
import DeskCalc.Proofs.Matrix.RoundTrip
import DeskCalc.Proofs.Matrix.RowMajor
import DeskCalc.Proofs.Matrix.RowOperations
import DeskCalc.Proofs.Matrix.Scaling
import DeskCalc.Proofs.Matrix.Turns
import DeskCalc.Proofs.Operation.Blocks
import DeskCalc.Proofs.Operation.Failures
import DeskCalc.Proofs.Operation.Storage
import DeskCalc.Proofs.Operation.Threshold
import DeskCalc.Proofs.Session.Coherence
import DeskCalc.Proofs.Session.Desk
import DeskCalc.Proofs.Session.Journal
import DeskCalc.Proofs.Session.Limits
import DeskCalc.Proofs.Session.Outputs
import DeskCalc.Proofs.Session.Run
import DeskCalc.Proofs.Session.Separation
import DeskCalc.Proofs.Stages
import DeskCalc.Proofs.Text.Blank
import DeskCalc.Proofs.Text.Pieces
import DeskCalc.Report.Basic
import DeskCalc.Report.Filter
import DeskCalc.Session.Desk
import DeskCalc.Session.Matrices
import DeskCalc.Session.Output
import DeskCalc.Session.Screen
import DeskCalc.Session.State
import DeskCalc.Session.Trigonometry
import DeskCalc.Settings
import DeskCalc.Text.Blank
import DeskCalc.Text.Pieces
