import DeskCalc.Operation.Apply
import DeskCalc.Proofs.Binary64.Order
import DeskCalc.Proofs.Operation.Blocks
import DeskCalc.Settings

/-!
Which matrices are inverted. A determinant below the threshold ends the matter; for any other one the
elimination decides. Numbers are either below the threshold or at least as large, but a determinant that is no
number is neither: pivots may underflow to a product of zero and a later pivot overflow. Such a determinant does
not stop the elimination, which may even succeed.
-/

namespace DeskCalc

/-- Whether a determinant passes a threshold: it is at least as large in magnitude, or it is no number. -/
def PassesThreshold (threshold d : Float) : Prop := threshold ≤ magnitude d ∨ d.isNaN = true

theorem passesThreshold_iff {threshold d : Float} (h : threshold.isNaN = false) :
    PassesThreshold threshold d ↔ ¬magnitude d < threshold := by
  unfold PassesThreshold
  cases hd : d.isNaN with
  | true =>
      have hmagnitude : (magnitude d).isNaN = true := (Binary64.isNaN_magnitude d).trans hd
      simp [Binary64.not_lt_of_isNaN hmagnitude]
  | false =>
      have hmagnitude : (magnitude d).isNaN = false := (Binary64.isNaN_magnitude d).trans hd
      simp [Binary64.not_lt_iff hmagnitude h]

theorem Settings.isFinite_singularThreshold_clamped (settings : Settings) :
    settings.clamped.singularThreshold.isFinite = true := by
  simp only [clamped]
  split
  next => decide
  next h =>
    simp only [Bool.or_eq_true, Bool.not_eq_true', not_or, Bool.not_eq_false] at h
    exact h.1

namespace DenseMatrix

variable {α : Type} [OfNat α 0] [OfNat α 1] [Neg α] [Sub α] [Mul α] [Div α] [BEq α] [LT α] [DecidableLT α]
  {n : Nat} (g : Grid α n n) (n_pos m_pos : 0 < n)

theorem determinant?_square : determinant? ⟨n, n, g, n_pos, m_pos⟩ = some g.determinant := by
  simp [determinant?, square?]

theorem inverse?_square [RangeChecked α] :
    inverse? ⟨n, n, g, n_pos, m_pos⟩ = g.inverse?.map fun h => ⟨n, n, h, n_pos, n_pos⟩ := by
  simp [inverse?, square?]

end DenseMatrix

namespace Computation

/-- The three ways in which an inversion ends. -/
theorem inverse_cases {α : Type} [OfNat α 0] [OfNat α 1] [Neg α] [Sub α] [Mul α] [Div α] [BEq α] [LT α]
    [DecidableLT α] [RangeChecked α] (threshold : α) {n : Nat} (g : Grid α n n) (n_pos : 0 < n) :
    (magnitude g.determinant < threshold ∧
      inverse threshold g n_pos = refused g.determinant ⟨n, n⟩ .singular) ∨
    (¬magnitude g.determinant < threshold ∧ g.inverse? = none ∧
      inverse threshold g n_pos = refused g.determinant ⟨n, n⟩ .outOfRange) ∨
    (¬magnitude g.determinant < threshold ∧ ∃ h, g.inverse? = some h ∧
      inverse threshold g n_pos = ⟨.inverse g.determinant (.ok ⟨n, n, h, n_pos, n_pos⟩), []⟩) := by
  by_cases hbelow : magnitude g.determinant < threshold
  · exact .inl ⟨hbelow, if_pos hbelow⟩
  · cases hinverse : g.inverse? with
    | none => exact .inr (.inl ⟨hbelow, rfl, by simp [inverse, hbelow, hinverse]⟩)
    | some h => exact .inr (.inr ⟨hbelow, h, rfl, by simp [inverse, hbelow, hinverse]⟩)

end Computation

namespace Operation

theorem apply_inverse_square (threshold : Float) {n : Nat} (g : Grid Float n n) (n_pos m_pos : 0 < n)
    (b? : Option (DenseMatrix Float)) :
    apply threshold .inverse ⟨n, n, g, n_pos, m_pos⟩ b? = .ok (Computation.inverse threshold g n_pos) := by
  simp [apply, applySquare, DenseMatrix.square?]

/-- A square matrix is inverted by elimination unless its determinant is below the threshold, and the entries
of the inverse are finite. A determinant that is no number is not below the threshold. How results are
written has no part in this. -/
theorem apply_inverse_threshold (settings : Settings) (a : DenseMatrix Float) (hsquare : a.columns = a.rows)
    (b? : Option (DenseMatrix Float)) :
    ∃ d result journal, a.determinant? = some d ∧
      apply settings.clamped.singularThreshold .inverse a b? = .ok ⟨.inverse d result, journal⟩ ∧
      (∀ b, result = .ok b ↔
        PassesThreshold settings.clamped.singularThreshold d ∧ a.inverse? = some b) ∧
      (result = .error .singular ↔ ¬PassesThreshold settings.clamped.singularThreshold d) ∧
      (result = .error .outOfRange ↔
        PassesThreshold settings.clamped.singularThreshold d ∧ a.inverse? = none) ∧
      (∀ b, result = .ok b → ∀ i j, (b.entries.entry i j).isFinite = true) ∧
      ∀ digits places, apply ({ settings with
        significantDigits := digits, determinantPlaces := places } : Settings).clamped.singularThreshold
          .inverse a b? = .ok ⟨.inverse d result, journal⟩ := by
  obtain ⟨n, m, g, n_pos, m_pos⟩ := a
  obtain rfl : m = n := hsquare
  have hnumber := Binary64.isNaN_of_isFinite settings.isFinite_singularThreshold_clamped
  generalize hthreshold : settings.clamped.singularThreshold = threshold at hnumber
  have hdisplay : ∀ digits places, ({ settings with
      significantDigits := digits, determinantPlaces := places } : Settings).clamped.singularThreshold =
        threshold := fun _ _ => hthreshold
  simp only [hdisplay, forall_const]
  rw [DenseMatrix.determinant?_square, DenseMatrix.inverse?_square, apply_inverse_square]
  have hpasses := passesThreshold_iff (d := g.determinant) hnumber
  obtain ⟨hbelow, hcase⟩ | ⟨habove, hnone, hcase⟩ | ⟨habove, h, hsome, hcase⟩ :=
    Computation.inverse_cases threshold g n_pos
  · refine ⟨g.determinant, .error .singular, _, rfl, congrArg _ hcase, ?_⟩
    simp [hpasses, hbelow, hcase, Computation.refused]
  · refine ⟨g.determinant, .error .outOfRange, _, rfl, congrArg _ hcase, ?_⟩
    simp [hpasses, habove, hnone, hcase, Computation.refused]
  · refine ⟨g.determinant, .ok ⟨m, m, h, n_pos, n_pos⟩, _, rfl, congrArg _ hcase, ?_⟩
    have hfinite : ∀ i j, (h.entry i j).isFinite = true :=
      fun i j => Grid.isFinite_entry (Option.filter_eq_some_iff.1 hsome).2 i j
    simp [hpasses, habove, hsome, hcase, hfinite]

/-- A determinant of `1e-14` is below the default threshold. -/
theorem apply_inverse_threshold_of_small :
    ∃ d journal, DenseMatrix.determinant? ⟨2, 2, Grid.ofFn ![![1e-7, 0], ![0, 1e-7]], by decide, by decide⟩ = some d ∧
      apply ({} : Settings).clamped.singularThreshold .inverse
        ⟨2, 2, Grid.ofFn ![![1e-7, 0], ![0, 1e-7]], by decide, by decide⟩ none =
          .ok ⟨.inverse d (.error .singular), journal⟩ := by
  obtain ⟨d, result, journal, hd, happly, -, hsingular, -⟩ := apply_inverse_threshold {}
    ⟨2, 2, Grid.ofFn ![![1e-7, 0], ![0, 1e-7]], by decide, by decide⟩ rfl none
  have hbelow : ¬PassesThreshold ({} : Settings).clamped.singularThreshold d := by
    rw [DenseMatrix.determinant?_square] at hd
    obtain rfl := Option.some.inj hd
    unfold PassesThreshold
    decide +kernel
  obtain rfl := hsingular.2 hbelow
  exact ⟨d, journal, hd, happly⟩

/-- Two pivots whose product is zero, and a block whose last pivot is infinite. -/
def unevenGrid : Grid Float 4 4 :=
  Grid.ofFn ![![1e-200, 0, 0, 0], ![0, 1e-200, 0, 0], ![0, 0, 1e308, 1e308], ![0, 0, 1e308, -1e308]]

/-- All entries are finite and the determinant is no number, so that it is not as large as the threshold, and
yet there is an inverse. -/
theorem apply_inverse_of_underflow :
    (∀ i j, (unevenGrid.entry i j).isFinite = true) ∧
    ∃ d b journal, DenseMatrix.determinant? ⟨4, 4, unevenGrid, by decide, by decide⟩ = some d ∧
      ¬({} : Settings).clamped.singularThreshold ≤ magnitude d ∧
      apply ({} : Settings).clamped.singularThreshold .inverse ⟨4, 4, unevenGrid, by decide, by decide⟩ none =
        .ok ⟨.inverse d (.ok b), journal⟩ := by
  have hentries : ∀ i j, (unevenGrid.entry i j).isFinite = true := by decide +kernel
  have hdeterminant : unevenGrid.determinant.isNaN = true := by decide +kernel
  have hinverse : unevenGrid.inverse?.isSome = true := by decide +kernel
  have hmagnitude := (Binary64.isNaN_magnitude _).trans hdeterminant
  refine ⟨hentries, ?_⟩
  rw [DenseMatrix.determinant?_square, apply_inverse_square]
  obtain ⟨hbelow, -⟩ | ⟨-, hnone, -⟩ | ⟨-, h, -, hcase⟩ :=
    Computation.inverse_cases ({} : Settings).clamped.singularThreshold unevenGrid (by decide)
  · exact absurd hbelow (Binary64.not_lt_of_isNaN hmagnitude _)
  · rw [hnone] at hinverse
    cases hinverse
  · exact ⟨_, _, _, rfl, Binary64.not_le_of_isNaN hmagnitude _, congrArg _ hcase⟩

end Operation

end DeskCalc
