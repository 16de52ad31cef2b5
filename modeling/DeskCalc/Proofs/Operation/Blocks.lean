import DeskCalc.Operation.Blocks
import DeskCalc.Operation.Calculate
import DeskCalc.Proofs.Matrix.Layout
import DeskCalc.Proofs.Stages
import Mathlib

/-!
The matrix that an outcome shows, typed again. The operations read finite entries; those of a transpose are
the same, and an inverse with an entry beyond the range is refused, but a sum or a product may leave the range
without notice. And the rounding to the digits shown may leave it where the entry does not.
-/

namespace DeskCalc

/-- The matrix that an outcome shows, if it shows one. -/
def Outcome.matrix? {α : Type} : Outcome α → Option (DenseMatrix α)
  | .matrix a => some a
  | .inverse _ (.ok a) => some a
  | _ => none

/-- Whether a block is that of a matrix, which its title tells. -/
def Block.ShowsMatrix (block : Block) : Prop := block.title = "Résultat" ∨ block.title = "Inverse"

theorem Settings.significantDigits_clamped_pos (settings : Settings) :
    0 < settings.clamped.significantDigits := by
  simp only [clamped]
  omega

theorem Outcome.exists_block_showsMatrix_iff (settings : Settings) (outcome : Outcome Float) (text : String) :
    (∃ block ∈ outcome.blocks settings, block.ShowsMatrix ∧ block.text = text) ↔
      ∃ a, outcome.matrix? = some a ∧ a.text settings.significantDigits = text := by
  cases outcome with
  | matrix a => simp [blocks, matrix?, Block.ShowsMatrix]
  | rank r => simp [blocks, matrix?, Block.ShowsMatrix]
  | determinant d => simp [blocks, matrix?, determinantBlock, Block.ShowsMatrix]
  | inverse d inverse =>
      cases inverse with
      | ok a => simp [blocks, matrix?, determinantBlock, Block.ShowsMatrix]
      | error notice => simp [blocks, matrix?, determinantBlock, Block.ShowsMatrix]

theorem Grid.isFinite_entry {n : Nat} {g : Grid Float n n} (h : g.isFinite = true) (i j : Fin n) :
    (g.entry i j).isFinite = true := by
  have hrow := Vector.all_eq_true.1 h i i.isLt
  exact Vector.all_eq_true.1 hrow j j.isLt

theorem Computation.isFinite_of_inverse {threshold : Float} {n : Nat} {g : Grid Float n n} {n_pos : 0 < n}
    {a : DenseMatrix Float} (ha : (inverse threshold g n_pos).outcome.matrix? = some a) (i : Fin a.rows)
    (j : Fin a.columns) : (a.entries.entry i j).isFinite = true := by
  unfold inverse at ha
  simp only at ha
  split at ha
  · cases ha
  split at ha
  next h hinverse =>
    cases ha
    exact Grid.isFinite_entry (Option.filter_eq_some_iff.1 hinverse).2 i j
  next => cases ha

namespace Operation

variable {settings : Settings} {operation : Operation} {textA textB : String} {c : Computation Float}

/-- What is computed, is computed from matrices that were read. -/
theorem exists_of_calculate (h : operation.calculate settings textA textB = .ok c) :
    ∃ a b?, DenseMatrix.read textA = .ok a ∧ (∀ b ∈ b?, DenseMatrix.read textB = .ok b) ∧
      operation.apply settings.singularThreshold a b? = .ok c := by
  obtain ⟨a, ha, h⟩ := bind_eq_ok_iff.1 h
  obtain ⟨b?, hb, h⟩ := bind_eq_ok_iff.1 h
  refine ⟨a, b?, mapError_eq_ok_iff.1 ha, ?_, mapError_eq_ok_iff.1 h⟩
  split at hb
  · obtain ⟨b, hread, rfl⟩ := map_eq_ok_iff.1 hb
    rintro b ⟨⟩
    exact mapError_eq_ok_iff.1 hread
  · cases hb
    simp

theorem isFinite_of_transpose {a : DenseMatrix Float} (h : calculate settings .transpose textA textB = .ok c)
    (ha : c.outcome.matrix? = some a) (i : Fin a.rows) (j : Fin a.columns) :
    (a.entries.entry i j).isFinite = true := by
  obtain ⟨a', b?, hread, -, happly⟩ := exists_of_calculate h
  have hentries : ∀ i j, (a'.entries.entry i j).isFinite = true :=
    Grid.forall_mem_toRows_iff.1 fun row hrow x hx => DenseMatrix.isFinite_of_read hread hrow hx
  cases happly
  cases ha
  exact (congrArg Float.isFinite (Grid.entry_transpose a'.entries i j)).trans (hentries j i)

theorem isFinite_of_inverse {a : DenseMatrix Float} (h : calculate settings .inverse textA textB = .ok c)
    (ha : c.outcome.matrix? = some a) (i : Fin a.rows) (j : Fin a.columns) :
    (a.entries.entry i j).isFinite = true := by
  obtain ⟨a', b?, -, -, happly⟩ := exists_of_calculate h
  rw [apply, applySquare] at happly
  cases hsquare : a'.square? with
  | none =>
      rw [hsquare] at happly
      cases happly
  | some g =>
      rw [hsquare] at happly
      cases happly
      exact Computation.isFinite_of_inverse ha i j

/-- The block of a matrix is read exactly if all entries are finite and stay finite when they are rounded,
and what is read has the shape of the matrix. Entries of a transpose and of an inverse are finite. -/
theorem read_matrix_block (settings : Settings) (operation : Operation) (textA textB : String)
    (c : Computation Float) (h : operation.calculate settings.clamped textA textB = .ok c) :
    (∀ a, c.outcome.matrix? = some a → ∃ block ∈ c.outcome.blocks settings.clamped, block.ShowsMatrix) ∧
    ∀ block ∈ c.outcome.blocks settings.clamped, block.ShowsMatrix →
      ∃ a, c.outcome.matrix? = some a ∧
        ((∃ b, DenseMatrix.read block.text = .ok b) ↔
          ∀ i j, IsReadable settings.clamped.significantDigits (a.entries.entry i j)) ∧
        (∀ b, DenseMatrix.read block.text = .ok b → b.shape = a.shape) ∧
        (operation = .transpose ∨ operation = .inverse → ∀ i j, (a.entries.entry i j).isFinite = true) := by
  have hdigits := settings.significantDigits_clamped_pos
  constructor
  · intro a ha
    obtain ⟨block, hblock, hshows, -⟩ :=
      (Outcome.exists_block_showsMatrix_iff settings.clamped c.outcome _).2 ⟨a, ha, rfl⟩
    exact ⟨block, hblock, hshows⟩
  · intro block hblock hshows
    obtain ⟨a, ha, htext⟩ :=
      (Outcome.exists_block_showsMatrix_iff settings.clamped c.outcome block.text).1 ⟨block, hblock, hshows, rfl⟩
    rw [← htext]
    refine ⟨a, ha, ?_, fun b hb => DenseMatrix.shape_of_read_text hdigits hb, ?_⟩
    · rw [DenseMatrix.exists_read_text_iff hdigits]
      exact Grid.forall_mem_toRows_iff
    · rintro (rfl | rfl)
      · exact isFinite_of_transpose h ha
      · exact isFinite_of_inverse h ha

/-- The transpose of a row is a column, which is typed again. -/
theorem read_matrix_block_of_transpose :
    ∃ c a b, calculate ({} : Settings).clamped .transpose "1 2.5" "" = .ok c ∧ c.outcome.matrix? = some a ∧
      DenseMatrix.read "1\n2.5" = .ok b ∧ b.shape = a.shape := by
  have hblocks : (calculate ({} : Settings).clamped .transpose "1 2.5" "").toOption.map
      (·.outcome.blocks ({} : Settings).clamped) = some [⟨"Résultat", "1\n2.5"⟩] := by
    decide +kernel
  have hread : (DenseMatrix.read "1\n2.5").toOption.isSome = true := by
    decide +kernel
  cases h : calculate ({} : Settings).clamped .transpose "1 2.5" "" with
  | error e =>
      rw [h] at hblocks
      cases hblocks
  | ok c =>
      rw [h] at hblocks
      have hshown : c.outcome.blocks ({} : Settings).clamped = [⟨"Résultat", "1\n2.5"⟩] :=
        Option.some.inj hblocks
      obtain ⟨a, ha, -, hshape, -⟩ := (read_matrix_block {} .transpose "1 2.5" "" c h).2
        ⟨"Résultat", "1\n2.5"⟩ (by rw [hshown]; exact List.mem_cons_self) (.inl rfl)
      cases hb : DenseMatrix.read "1\n2.5" with
      | error e =>
          rw [hb] at hread
          cases hread
      | ok b => exact ⟨c, a, b, rfl, ha, rfl, hshape b hb⟩

/-- The largest double is shown with four digits as a number beyond it, which is refused. -/
theorem read_matrix_block_refused :
    (calculate ({} : Settings).clamped .transpose "1.7976931348623157e308" "").toOption.map
      (·.outcome.blocks ({} : Settings).clamped) = some [⟨"Résultat", "1.798e+308"⟩] ∧
    (DenseMatrix.read "1.798e+308").toOption.isNone = true := by
  decide +kernel

end Operation

end DeskCalc
