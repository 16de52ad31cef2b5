import DeskCalc.Matrix.Arithmetic
import DeskCalc.Matrix.Scalar

/-!
The numerical rank: the number of singular values above a tolerance relative to the largest. The columns
are made orthogonal pair by pair, by plane rotations; their lengths are then the singular values. The
entries are first divided by the largest one, so that squares stay in range.
-/

namespace DeskCalc.Grid

variable {α : Type} {n m : Nat}

section Rotation

variable [OfNat α 0] [OfNat α 1] [OfNat α 2] [Add α] [Sub α] [Mul α] [Div α] [Neg α] [BEq α] [LT α]
  [DecidableLT α] [LE α] [DecidableLE α] [Spectral α]

def normSquared (v : Vector α n) : α := v.foldl (fun sum x => sum + x * x) 0

def dot (u v : Vector α n) : α := (Vector.zipWith (· * ·) u v).foldl (· + ·) 0

/-- Whether two columns count as orthogonal: their product `gamma` is negligible beside their squared
norms `alpha` and `beta`. -/
def areOrthogonal (alpha beta gamma : α) : Bool :=
  gamma == 0 || magnitude gamma ≤ Spectral.epsilon * Spectral.sqrt (alpha * beta)

/-- The cosine and the sine of the smaller angle that makes two columns orthogonal, from their squared
norms `alpha` and `beta` and their product `gamma`. -/
def rotation (alpha beta gamma : α) : α × α :=
  let zeta := (beta - alpha) / (2 * gamma)
  let t := Spectral.signum zeta / (magnitude zeta + Spectral.sqrt (1 + zeta * zeta))
  let c := 1 / Spectral.sqrt (1 + t * t)
  (c, c * t)

/-- Columns `p` and `q`, kept in the rows of the grid, rotated unless they count as orthogonal; and
whether they were. -/
def rotatePair (columns : Grid α m n) (p q : Fin m) : Grid α m n × Bool :=
  let first := columns.get p
  let second := columns.get q
  let alpha := normSquared first
  let beta := normSquared second
  let gamma := dot first second
  if areOrthogonal alpha beta gamma then (columns, false)
  else
    let angle := rotation alpha beta gamma
    let rotated := columns.setRow p (Vector.zipWith (fun x y => angle.1 * x - angle.2 * y) first second)
    (rotated.setRow q (Vector.zipWith (fun x y => angle.2 * x + angle.1 * y) first second), true)

/-- All pairs of two columns in the order of a sweep. -/
def pairs (m : Nat) : List (Fin m × Fin m) :=
  (List.finRange m).flatMap fun p => ((List.finRange m).filter (p < ·)).map (p, ·)

/-- One pass over all pairs, and whether a pair was rotated. -/
def sweep (columns : Grid α m n) : Grid α m n × Bool :=
  (pairs m).foldl
    (fun state pair =>
      let rotated := rotatePair state.1 pair.1 pair.2
      (rotated.1, state.2 || rotated.2))
    (columns, false)

/-- At most `count` passes, ended by the first one that rotates nothing. -/
def sweeps : Nat → Grid α m n → Grid α m n
  | 0, columns => columns
  | count + 1, columns =>
    let swept := sweep columns
    if swept.2 then sweeps count swept.1 else swept.1

/-- The larger of two numbers; what does not compare with the first is passed over. -/
def larger (x y : α) : α := if x < y then y else x

/-- The largest magnitude of an entry. -/
def largest (g : Grid α m n) : α :=
  g.foldl (fun acc row => row.foldl (fun acc x => larger acc (magnitude x)) acc) 0

/-- The number of passes after which the columns are taken as they are. -/
def sweepLimit : Nat := 60

/-- The singular values of the matrix with the given columns, relative to its largest entry, in
decreasing order. -/
def singularValues (columns : Grid α m n) : List α :=
  let scale := columns.largest
  if scale == 0 then List.replicate m 0
  else
    let swept := sweeps sweepLimit (Vector.map (fun v => Vector.map (· / scale) v) columns)
    (swept.toList.map fun v => Spectral.sqrt (normSquared v)).mergeSort fun a b => b ≤ a

end Rotation

end DeskCalc.Grid

namespace DeskCalc.DenseMatrix

variable {α : Type} [OfNat α 0] [OfNat α 1] [OfNat α 2] [Add α] [Sub α] [Mul α] [Div α] [Neg α]
  [BEq α] [LT α] [DecidableLT α] [LE α] [DecidableLE α] [Spectral α]

/-- The singular values. Of a matrix and its transpose the one with fewer columns is used. -/
def singularValues (a : DenseMatrix α) : List α :=
  if a.columns ≤ a.rows then a.entries.transpose.singularValues else a.entries.singularValues

/-- The number of singular values above the tolerance, which is relative to the largest of them. -/
def rank [NatCast α] (a : DenseMatrix α) : Nat :=
  let values := a.singularValues
  let size : α := ((max a.rows a.columns : Nat) : α)
  let tolerance := values.headD 0 * size * Spectral.epsilon
  values.countP (tolerance < ·)

end DeskCalc.DenseMatrix
