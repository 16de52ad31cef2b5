import DeskCalc.Proofs.Matrix.RelativeColumns
import Mathlib.Data.Matrix.Mul
import Mathlib.LinearAlgebra.Matrix.Trace
import Mathlib.Tactic.LinearCombination

/-!
Singular values in exact arithmetic. The angle of a turn solves a quadratic equation, so that after the turn the two
columns are orthogonal; and it is an angle, so that the turn changes no product of two rows. What the passes keep is
therefore the product of the columns with their transpose, whatever the number of passes, and with its trace the sum
of the squares of the singular values.
-/

namespace DeskCalc

/-- Exact square roots, and a sign that is one for zero. -/
class ExactSpectral (K : Type) [Field K] [LinearOrder K] [Spectral K] : Prop where
  sqrt_nonneg (x : K) : 0 ≤ x → 0 ≤ Spectral.sqrt x
  sqrt_mul_self (x : K) : 0 ≤ x → Spectral.sqrt x * Spectral.sqrt x = x
  signum_eq (x : K) : Spectral.signum x = if x < 0 then -1 else 1

instance exactSpectralReal : ExactSpectral ℝ where
  sqrt_nonneg x _ := Real.sqrt_nonneg x
  sqrt_mul_self _ hx := Real.mul_self_sqrt hx
  signum_eq _ := rfl

section Angle

variable {K : Type} [Field K] [LinearOrder K] [Spectral K] [ExactSpectral K]

theorem sqrt_pos {x : K} (hx : 0 < x) : 0 < Spectral.sqrt x := by
  have hmul := ExactSpectral.sqrt_mul_self x hx.le
  refine (ExactSpectral.sqrt_nonneg x hx.le).lt_of_ne fun hzero => ?_
  rw [← hzero, mul_zero] at hmul
  exact hx.ne hmul

theorem signum_spec (x : K) :
    (Spectral.signum x : K) * Spectral.signum x = 1 ∧ magnitude x = Spectral.signum x * x := by
  rw [ExactSpectral.signum_eq, magnitude]
  split
  · simp
  · simp

variable [IsStrictOrderedRing K]

/-- The tangent of the angle is a root of a quadratic equation. -/
theorem tangent_spec {zeta t : K}
    (ht : t = Spectral.signum zeta / (magnitude zeta + Spectral.sqrt (1 + zeta * zeta))) :
    t * t + 2 * zeta * t = 1 := by
  have hone : (0 : K) < 1 + zeta * zeta := by linarith [mul_self_nonneg zeta]
  have hroot := ExactSpectral.sqrt_mul_self _ hone.le
  obtain ⟨hsign, hmagnitude⟩ := signum_spec zeta
  have hd : magnitude zeta + Spectral.sqrt (1 + zeta * zeta) ≠ 0 := by
    have hnonneg := abs_nonneg zeta
    rw [← magnitude_eq_abs] at hnonneg
    exact (add_pos_of_nonneg_of_pos hnonneg (sqrt_pos hone)).ne'
  rw [hmagnitude] at ht hd
  generalize Spectral.sqrt (1 + zeta * zeta) = r at *
  generalize (Spectral.signum zeta : K) = s at *
  have htangent : t * (s * zeta + r) = s := by rw [ht, div_mul_cancel₀ _ hd]
  -- solved for the root and squared, and the sign squares to one
  linear_combination
    (t * r + s - t * s * zeta) * htangent - t * t * hroot + (1 - t * zeta) * (1 - t * zeta) * hsign

/-- The angle is one, and it makes columns of squared norms `alpha` and `beta` and of product `gamma` orthogonal. -/
theorem rotation_spec (alpha beta : K) {gamma : K} (hgamma : gamma ≠ 0) :
    (Grid.rotation alpha beta gamma).1 * (Grid.rotation alpha beta gamma).1 +
        (Grid.rotation alpha beta gamma).2 * (Grid.rotation alpha beta gamma).2 = 1 ∧
      (Grid.rotation alpha beta gamma).1 * (Grid.rotation alpha beta gamma).2 * (alpha - beta) +
        ((Grid.rotation alpha beta gamma).1 * (Grid.rotation alpha beta gamma).1 -
          (Grid.rotation alpha beta gamma).2 * (Grid.rotation alpha beta gamma).2) * gamma = 0 := by
  unfold Grid.rotation
  simp only
  have hzeta : (beta - alpha) / (2 * gamma) * (2 * gamma) = beta - alpha :=
    div_mul_cancel₀ _ (mul_ne_zero two_ne_zero hgamma)
  generalize (beta - alpha) / (2 * gamma) = zeta at *
  obtain ⟨t, ht⟩ : ∃ t, t = Spectral.signum zeta / (magnitude zeta + Spectral.sqrt (1 + zeta * zeta)) := ⟨_, rfl⟩
  have htangent := tangent_spec ht
  rw [← ht]
  have hone : (0 : K) < 1 + t * t := by linarith [mul_self_nonneg t]
  have hcosine : 1 / Spectral.sqrt (1 + t * t) * (1 / Spectral.sqrt (1 + t * t)) * (1 + t * t) = 1 := by
    rw [div_mul_div_comm, one_mul, ExactSpectral.sqrt_mul_self _ hone.le, one_div_mul_cancel hone.ne']
  generalize 1 / Spectral.sqrt (1 + t * t) = c at *
  constructor
  · linear_combination hcosine
  · linear_combination -(c * c * gamma) * htangent + c * c * t * hzeta

end Angle

namespace Grid

section Turn

variable {K : Type} [Field K] {n m : Nat}

/-- The product of the matrix of the columns with its transpose. The columns are the rows of the grid. -/
def gram (columns : Grid K m n) : Matrix (Fin n) (Fin n) K := columns.toMatrix.transpose * columns.toMatrix

theorem gram_apply (columns : Grid K m n) (i i' : Fin n) :
    columns.gram i i' = ∑ j, columns.entry j i * columns.entry j i' := rfl

theorem trace_gram (columns : Grid K m n) : columns.gram.trace = ∑ j, ∑ i, columns.entry j i ^ 2 := by
  rw [Finset.sum_comm]
  refine Finset.sum_congr rfl fun i _ => ?_
  rw [Matrix.diag_apply, gram_apply]
  exact Finset.sum_congr rfl fun j _ => (sq _).symm

variable (t : Turn K m) (hne : t.first ≠ t.second)
include hne

/-- An angle turns two columns about, and with them no product of two rows. -/
theorem gram_apply_turn (hangle : t.cosine * t.cosine + t.sine * t.sine = 1) (columns : Grid K m n) :
    (t.apply columns).gram = columns.gram := by
  ext i i'
  rw [gram_apply, gram_apply, ← sub_eq_zero, ← Finset.sum_sub_distrib,
    Fintype.sum_eq_add t.first t.second hne]
  · simp only [Turn.entry_apply, if_neg hne, if_true]
    linear_combination (columns.entry t.first i * columns.entry t.first i' +
      columns.entry t.second i * columns.entry t.second i') * hangle
  · intro j hj
    simp only [Turn.entry_apply, if_neg hj.1, if_neg hj.2, sub_self]

theorem dot_apply_turn (columns : Grid K m n) :
    dot ((t.apply columns).get t.first) ((t.apply columns).get t.second) =
      t.cosine * t.sine * (normSquared (columns.get t.first) - normSquared (columns.get t.second)) +
        (t.cosine * t.cosine - t.sine * t.sine) * dot (columns.get t.first) (columns.get t.second) := by
  have hfirst : ∀ i, ((t.apply columns).get t.first).get i =
      t.cosine * (columns.get t.first).get i - t.sine * (columns.get t.second).get i := fun i => by
    have h := t.entry_apply columns t.first i
    rwa [if_neg hne, if_pos rfl] at h
  have hsecond : ∀ i, ((t.apply columns).get t.second).get i =
      t.sine * (columns.get t.first).get i + t.cosine * (columns.get t.second).get i := fun i => by
    have h := t.entry_apply columns t.second i
    rwa [if_pos rfl] at h
  simp only [dot_eq_sum, normSquared_eq_sum, hfirst, hsecond, Finset.mul_sum, ← Finset.sum_sub_distrib,
    ← Finset.sum_add_distrib]
  exact Finset.sum_congr rfl fun i _ => by ring

end Turn

section Pass

variable {K : Type} [Field K] [LinearOrder K] [IsStrictOrderedRing K] [BEq K] [LawfulBEq K] [Spectral K]
  [ExactSpectral K] {n m : Nat}

theorem turn?_spec {columns : Grid K m n} {p q : Fin m} {t : Turn K m} (h : columns.turn? p q = some t) :
    t.cosine * t.cosine + t.sine * t.sine = 1 ∧
      t.cosine * t.sine * (normSquared (columns.get p) - normSquared (columns.get q)) +
        (t.cosine * t.cosine - t.sine * t.sine) * dot (columns.get p) (columns.get q) = 0 := by
  unfold turn? at h
  simp only at h
  split at h
  · cases h
  next hnot =>
    have hgamma : dot (columns.get p) (columns.get q) ≠ 0 := fun hzero => hnot (by simp [areOrthogonal, hzero])
    cases h
    exact rotation_spec _ _ hgamma

/-- The product of two rows is the same at every point of a run. -/
theorem gram_replay {ts : List (Turn K m)} {columns : Grid K m n} (h : AreChosen columns ts) :
    (Turn.replay ts columns).gram = columns.gram := by
  induction ts generalizing columns with
  | nil => rfl
  | cons t rest ih =>
      obtain ⟨hlt, hturn, hrest⟩ := h
      rw [Turn.replay_cons, ih hrest]
      exact gram_apply_turn t hlt.ne (turn?_spec hturn).1 columns

theorem gram_sweepAlong {ps : List (Fin m × Fin m)} (hps : ∀ pair ∈ ps, pair.1 < pair.2) (columns : Grid K m n) :
    (sweepAlong ps columns).1.gram = columns.gram := by
  rw [sweepAlong_eq_replay]
  exact gram_replay (areChosen_turnsAlong hps columns)

theorem gram_sweeps (count : Nat) (columns : Grid K m n) : (sweeps count columns).gram = columns.gram := by
  rw [sweeps_eq_replay]
  exact gram_replay (areChosen_turns count columns)

/-- What comes of a pair of columns. -/
structure IsMadeOrthogonal (columns : Grid K m n) (p q : Fin m) : Prop where
  lt : p < q
  dot_eq_zero : (rotatePair columns p q).2 = true →
    dot ((rotatePair columns p q).1.get p) ((rotatePair columns p q).1.get q) = 0
  eq_of_orthogonal : (rotatePair columns p q).2 = false → (rotatePair columns p q).1 = columns
  get_eq (j : Fin m) : j ≠ p → j ≠ q → (rotatePair columns p q).1.get j = columns.get j
  gram_eq : (rotatePair columns p q).1.gram = columns.gram

theorem isMadeOrthogonal (columns : Grid K m n) {p q : Fin m} (hlt : p < q) : columns.IsMadeOrthogonal p q := by
  have hpair := rotatePair_eq columns p q
  cases hturn : columns.turn? p q with
  | none =>
      rw [hturn] at hpair
      constructor <;> simp [hpair, hlt]
  | some t =>
      rw [hturn] at hpair
      obtain ⟨hangle, hdot⟩ := turn?_spec hturn
      obtain ⟨rfl, rfl⟩ := eq_of_turn? hturn
      refine ⟨hlt, ?_, ?_, ?_, ?_⟩
      · rw [hpair]
        intro _
        exact (dot_apply_turn t hlt.ne columns).trans hdot
      · simp [hpair]
      · intro j hfirst hsecond
        rw [hpair]
        exact (t.get_apply columns j).trans (by rw [if_neg hsecond, if_neg hfirst])
      · rw [hpair]
        exact gram_apply_turn t hlt.ne hangle columns

end Pass

section Lengths

variable {K : Type} [Field K] [LinearOrder K] [Spectral K] {n m : Nat}

theorem pairwise_lengths (columns : Grid K m n) : columns.lengths.Pairwise (· ≥ ·) := by
  have htrans : ∀ a b c : K, decide (b ≤ a) = true → decide (c ≤ b) = true → decide (c ≤ a) = true := by
    intro a b c hab hbc
    rw [decide_eq_true_eq] at *
    exact hbc.trans hab
  have htotal : ∀ a b : K, (decide (b ≤ a) || decide (a ≤ b)) = true := by
    intro a b
    rw [Bool.or_eq_true, decide_eq_true_eq, decide_eq_true_eq]
    exact le_total b a
  exact (List.pairwise_mergeSort htrans htotal _).imp of_decide_eq_true

theorem sum_sq_lengths [IsStrictOrderedRing K] [ExactSpectral K] (columns : Grid K m n) :
    (columns.lengths.map (· ^ 2)).sum = ∑ j, ∑ i, columns.entry j i ^ 2 := by
  have hsquare : ∀ v : Vector K n, Spectral.sqrt (normSquared v) ^ 2 = ∑ i, v.get i ^ 2 := fun v => by
    rw [normSquared_eq_sum, sq, ExactSpectral.sqrt_mul_self _ (Finset.sum_nonneg fun i _ => mul_self_nonneg _)]
    exact Finset.sum_congr rfl fun i _ => (sq _).symm
  have hperm := (List.mergeSort_perm (columns.toList.map fun v => Spectral.sqrt (normSquared v))
    fun a b => decide (b ≤ a)).map (· ^ 2)
  rw [lengths, hperm.sum_eq, List.map_map, toList_eq_map_get, List.map_map, Fin.sum_univ_def]
  exact congrArg List.sum (List.map_congr_left fun j _ => hsquare _)

end Lengths

end Grid

namespace DenseMatrix

variable {K : Type} [Field K] [LinearOrder K] [IsStrictOrderedRing K] [BEq K] [LawfulBEq K] [Spectral K]
  [ExactSpectral K]

/-- A matrix with an entry that is not zero, in exact arithmetic. At each point of each pass the columns have the same
product with their transpose as those that the passes begin with, which are relative to the largest entry; the pair
that is next becomes orthogonal if it is rotated, and nothing else changes. After any number of passes the squares of
the lengths, which are in decreasing order, have the sum of the squares of the entries. -/
theorem singularValues_spec (a : DenseMatrix K) (hentry : ∃ i j, a.entries.entry i j ≠ 0) :
    (∀ i j, |a.entries.entry i j| ≤ a.tallColumns.largest) ∧
    (∃ i j, |a.entries.entry i j| = a.tallColumns.largest) ∧
    (∀ count, Grid.sweeps (count + 1) a.tallColumns.relative =
      (Grid.sweepAlong (Grid.pairs _) (Grid.sweeps count a.tallColumns.relative)).1) ∧
    (∀ count done pair rest, Grid.pairs _ = done ++ pair :: rest →
      (Grid.sweepAlong done (Grid.sweeps count a.tallColumns.relative)).1.gram = a.tallColumns.relative.gram ∧
      (Grid.sweepAlong done (Grid.sweeps count a.tallColumns.relative)).1.IsMadeOrthogonal pair.1 pair.2) ∧
    (∀ count, (Grid.sweeps count a.tallColumns.relative).gram = a.tallColumns.relative.gram ∧
      ((Grid.sweeps count a.tallColumns.relative).lengths.map (· ^ 2)).sum =
        ∑ j, ∑ i, a.tallColumns.relative.entry j i ^ 2 ∧
      (Grid.sweeps count a.tallColumns.relative).lengths.Pairwise (· ≥ ·) ∧
      (Grid.sweeps count a.tallColumns.relative).lengths.length = min a.rows a.columns) ∧
    a.singularValues = (Grid.sweeps Grid.sweepLimit a.tallColumns.relative).lengths := by
  obtain ⟨hbound, hreached⟩ := a.tallColumns.largest_spec
  rw [forall_entry_tallColumns_iff (p := fun x => |x| ≤ a.tallColumns.largest)] at hbound
  have hlargest : a.tallColumns.largest ≠ 0 := by
    intro hzero
    obtain ⟨i, j, hne⟩ := hentry
    exact hne (abs_nonpos_iff.1 (hzero ▸ hbound i j))
  refine ⟨hbound, ?_, fun count => Grid.sweeps_succ count _, ?_, ?_, ?_⟩
  · obtain ⟨j, i, heq⟩ := hreached hlargest
    by_contra hnone
    push Not at hnone
    exact (forall_entry_tallColumns_iff (p := fun x => |x| ≠ a.tallColumns.largest)).2 hnone j i heq
  · intro count done pair rest hpairs
    have hlt : ∀ other ∈ done ++ pair :: rest, other.1 < other.2 :=
      fun _ hother => Grid.lt_of_mem_pairs (hpairs ▸ hother)
    constructor
    · rw [Grid.gram_sweepAlong fun other hother => hlt other (List.mem_append_left _ hother), Grid.gram_sweeps]
    · exact Grid.isMadeOrthogonal _ (hlt pair (by simp))
  · intro count
    refine ⟨Grid.gram_sweeps count _, ?_, Grid.pairwise_lengths _, Grid.length_lengths _⟩
    rw [Grid.sum_sq_lengths, ← Grid.trace_gram, Grid.gram_sweeps, Grid.trace_gram]
  · rw [singularValues_eq, Grid.singularValues_eq, if_neg (mt beq_iff_eq.1 hlargest)]

/-- Two rows that are not orthogonal, and the sum of the squares of their singular values. -/
theorem singularValues_spec_of_two_rows :
    (singularValues (⟨2, 3, Grid.ofFn ![![1, 1, 0], ![0, 1, 1]], by decide, by decide⟩ : DenseMatrix ℝ)).Pairwise
        (· ≥ ·) ∧
      ((singularValues (⟨2, 3, Grid.ofFn ![![1, 1, 0], ![0, 1, 1]], by decide, by decide⟩ :
        DenseMatrix ℝ)).map (· ^ 2)).sum = 4 := by
  have hentry : ∀ i j, (Grid.ofFn ![![1, 1, 0], ![0, 1, 1]] : Grid ℝ 2 3).entry i j =
      ![![1, 1, 0], ![0, 1, 1]] i j := fun i j => Grid.entry_ofFn _ i j
  generalize (Grid.ofFn ![![1, 1, 0], ![0, 1, 1]] : Grid ℝ 2 3) = entries at hentry ⊢
  obtain ⟨hbound, ⟨i, j, hreached⟩, -, -, hcount, hvalues⟩ :=
    singularValues_spec ⟨2, 3, entries, by decide, by decide⟩ ⟨0, 0, by simp [hentry]⟩
  obtain ⟨-, hsum, hsorted, -⟩ := hcount Grid.sweepLimit
  have hlargest : (⟨2, 3, entries, by decide, by decide⟩ : DenseMatrix ℝ).tallColumns.largest = 1 := by
    apply le_antisymm
    · rw [← hreached, hentry]
      fin_cases i <;> fin_cases j <;> simp
    · exact (by simp [hentry] : (1 : ℝ) ≤ |entries.entry 0 0|).trans (hbound 0 0)
  rw [hvalues, hsum]
  refine ⟨hsorted, ?_⟩
  simp only [Grid.entry_relative, hlargest, div_one]
  show ∑ j : Fin 2, ∑ i : Fin 3, entries.entry j i ^ 2 = 4
  simp only [hentry, Fin.sum_univ_two, Fin.sum_univ_three]
  show (1 : ℝ) ^ 2 + 1 ^ 2 + 0 ^ 2 + (0 ^ 2 + 1 ^ 2 + 1 ^ 2) = 4
  norm_num

end DenseMatrix

end DeskCalc
