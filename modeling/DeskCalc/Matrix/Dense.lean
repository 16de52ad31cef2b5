import DeskCalc.Matrix.Grid

/-!
Matrices: grids with at least one row and one column, of a size that is part of the value.
-/

namespace DeskCalc

structure Shape where
  rows : Nat
  columns : Nat
deriving DecidableEq, Repr

/-- A shape as messages show it. -/
def Shape.text (s : Shape) : String := toString s.rows ++ "×" ++ toString s.columns

/-- A rectangular matrix that is not empty. -/
structure DenseMatrix (α : Type) where
  rows : Nat
  columns : Nat
  entries : Grid α rows columns
  rows_pos : 0 < rows
  columns_pos : 0 < columns

namespace DenseMatrix

variable {α : Type}

def shape (a : DenseMatrix α) : Shape := ⟨a.rows, a.columns⟩

def isSquare (a : DenseMatrix α) : Bool := a.rows == a.columns

def toRows (a : DenseMatrix α) : List (List α) := a.entries.toRows

/-- The matrix with the given rows. There is none without a row or without a column, or with rows of
different lengths. -/
def ofRows? : List (List α) → Option (DenseMatrix α)
  | [] => none
  | first :: rest =>
    if h : 0 < first.length ∧ ∀ row ∈ first :: rest, row.length = first.length then
      some ⟨_, _, Grid.ofRows (first :: rest) h.2, Nat.succ_pos _, h.1⟩
    else none

theorem toRows_of_ofRows? {rows : List (List α)} {a : DenseMatrix α} (h : ofRows? rows = some a) :
    a.toRows = rows := by
  cases rows with
  | nil => simp [ofRows?] at h
  | cons first rest =>
    simp only [ofRows?] at h
    split at h
    · rename_i hshape
      obtain rfl := Option.some.inj h
      exact Grid.toRows_ofRows _ hshape.2
    · simp at h

@[simp] theorem length_toRows (a : DenseMatrix α) : a.toRows.length = a.rows := by
  simp [toRows, Grid.toRows]

theorem length_of_mem_toRows {a : DenseMatrix α} {row : List α} (h : row ∈ a.toRows) :
    row.length = a.columns := by
  obtain ⟨entries, -, rfl⟩ := List.mem_map.1 h
  exact entries.length_toList

end DenseMatrix

end DeskCalc
