import DeskCalc.Proofs.Matrix.CheckedElimination
import DeskCalc.Proofs.Matrix.Determinant
import DeskCalc.Proofs.Matrix.RelativeColumns

/-!
What partial pivoting is for. The search for a pivot ends at the first of the largest entries, so no
multiplier is larger than one, and a step at most doubles the largest entry of the grid. After `k` steps no
entry is larger than `2 ^ k` times the largest one of the matrix, and there are matrices that reach this.
-/

namespace DeskCalc

namespace Grid

section Search

variable {K : Type} [Field K] [LinearOrder K] {n m : Nat}

/-- Row `p` is the first one, from row `k` on, whose entry in column `c` is largest in magnitude. -/
structure IsFirstLargest (g : Grid K n m) (k : Fin n) (c : Fin m) (p : Fin n) : Prop where
  le : k ≤ p
  largest : ∀ i, k ≤ i → |g.entry i c| ≤ |g.entry p c|
  first : ∀ i, k ≤ i → i < p → |g.entry i c| < |g.entry p c|

variable [IsStrictOrderedRing K]

/-- The search through increasing rows leaves a row behind only for a larger entry. -/
theorem foldl_largerRow_first (g : Grid K n m) (c : Fin m) (rows : List (Fin n)) (k : Fin n)
    (hincreasing : (k :: rows).Pairwise (· < ·)) :
    ∀ i ∈ k :: rows, i < rows.foldl (g.largerRow c) k →
      |g.entry i c| < |g.entry (rows.foldl (g.largerRow c) k) c| := by
  induction rows generalizing k with
  | nil =>
      intro i hi hlt
      obtain rfl := List.mem_singleton.mp hi
      exact absurd hlt (lt_irrefl i)
  | cons r rows ih =>
      obtain ⟨hk, hr, hrows⟩ : (∀ i ∈ r :: rows, k < i) ∧ (∀ i ∈ rows, r < i) ∧ rows.Pairwise (· < ·) := by
        rwa [List.pairwise_cons, List.pairwise_cons] at hincreasing
      have hkr := hk r List.mem_cons_self
      have hkrows : (k :: rows).Pairwise (· < ·) :=
        List.pairwise_cons.mpr ⟨fun i hi => hk i (List.mem_cons_of_mem r hi), hrows⟩
      have hrrows : (r :: rows).Pairwise (· < ·) := List.pairwise_cons.mpr ⟨hr, hrows⟩
      rw [List.foldl_cons, largerRow, magnitude_eq_abs, magnitude_eq_abs]
      intro i hi
      split
      · rename_i hlarger
        rcases List.mem_cons.mp hi with rfl | hi
        · exact fun _ => hlarger.trans_le (g.foldl_largerRow_spec c rows r).2.1
        · exact ih r hrrows i hi
      · rename_i hlarger
        rcases List.mem_cons.mp hi with rfl | hi
        · exact ih i hkrows i List.mem_cons_self
        rcases List.mem_cons.mp hi with rfl | hi
        · -- the search ends below this row, so it has left row `k` for a larger entry
          intro hlt
          exact (not_lt.mp hlarger).trans_lt (ih k hkrows k List.mem_cons_self (hkr.trans hlt))
        · exact ih k hkrows i (List.mem_cons_of_mem k hi)

theorem isFirstLargest_pivotRow (g : Grid K n m) (k : Fin n) (c : Fin m) :
    g.IsFirstLargest k c (g.pivotRow k c) := by
  obtain ⟨hle, hlargest⟩ := g.pivotRow_spec k c
  refine ⟨hle, hlargest, fun i hi => ?_⟩
  have hincreasing : (k :: (List.finRange n).filter (k < ·)).Pairwise (· < ·) := by
    refine List.pairwise_cons.mpr ⟨fun i hi => ?_, (List.pairwise_lt_finRange n).filter _⟩
    simpa using hi
  have hmem : i ∈ k :: (List.finRange n).filter (k < ·) := by
    rcases hi.eq_or_lt with rfl | hlt
    · exact List.mem_cons_self
    · exact List.mem_cons_of_mem k (by simpa using hlt)
  exact g.foldl_largerRow_first c _ k hincreasing i hmem

end Search

section Step

variable {K : Type} [Field K] {n : Nat}

/-- The multiple of row `k` that is taken from row `i`. -/
def multiplier (g : Grid K n n) (k i : Fin n) : K := g.entry i k / g.entry k k

variable [LinearOrder K]

/-- The grid with the pivot of column `k` on the diagonal, before anything is cleared. -/
def pivoted (g : Grid K n n) (k : Fin n) : Grid K n n := g.swapRows (g.pivotRow k k) k

/-- Whether no entry is larger than a bound. -/
def IsBounded (g : Grid K n n) (bound : K) : Prop := ∀ i j, |g.entry i j| ≤ bound

theorem IsBounded.pivoted {g : Grid K n n} {bound : K} (hg : g.IsBounded bound) (k : Fin n) :
    (g.pivoted k).IsBounded bound := by
  intro i j
  rw [Grid.pivoted, entry_swapRows_swap]
  exact hg _ j

variable [IsStrictOrderedRing K]

theorem abs_multiplier_pivoted_le_one (g : Grid K n n) {k i : Fin n} (hi : k < i) :
    |(g.pivoted k).multiplier k i| ≤ 1 := by
  obtain ⟨hkp, hlargest⟩ := g.pivotRow_spec k k
  rw [multiplier, pivoted, entry_swapRows_swap, entry_swapRows_swap, Equiv.swap_apply_right, abs_div]
  exact div_le_one_of_le₀ (hlargest _ (le_swap hkp hi.le)) (abs_nonneg _)

/-- Multiples of at most one of a row at most double the largest entry. -/
theorem IsBounded.clearBelow [BEq K] [LawfulBEq K] {g : Grid K n n} {bound : K} (hg : g.IsBounded bound)
    {k : Fin n} (hmultiplier : ∀ i, k < i → |g.multiplier k i| ≤ 1) :
    (g.clearBelow k).IsBounded (2 * bound) := by
  intro i j
  have hnonneg : 0 ≤ bound := (abs_nonneg _).trans (hg i j)
  rw [entry_clearBelow]
  split
  · rename_i h
    have hproduct : |g.multiplier k i * g.entry k j| ≤ bound := by
      rw [abs_mul]
      exact (mul_le_of_le_one_left (abs_nonneg _) (hmultiplier i h.1)).trans (hg k j)
    calc |g.entry i j - g.multiplier k i * g.entry k j|
        ≤ |g.entry i j| + |g.multiplier k i * g.entry k j| := abs_sub _ _
      _ ≤ bound + bound := add_le_add (hg i j) hproduct
      _ = 2 * bound := (two_mul bound).symm
  · exact (hg i j).trans (le_mul_of_one_le_left hnonneg one_le_two)

end Step

end Grid

namespace Triangulation

variable {K : Type} [Field K] [LinearOrder K] [IsStrictOrderedRing K] [BEq K] [LawfulBEq K] {n : Nat}

theorem isBounded_of_step? {s s' : Triangulation K n} {k : Fin n} (hstep : s.step? k = some s') {bound : K}
    (hs : s.grid.IsBounded bound) : s'.grid.IsBounded (2 * bound) := by
  obtain ⟨-, rfl⟩ := eq_of_step? hstep
  exact (hs.pivoted k).clearBelow fun i hi => s.grid.abs_multiplier_pivoted_le_one hi

theorem isBounded_after {g : Grid K n n} {k : Nat} {hk : k ≤ n} {s : Triangulation K n}
    (hs : after g k hk = some s) : s.grid.IsBounded (2 ^ k * g.largest) := by
  induction k generalizing s with
  | zero =>
      obtain rfl := Option.some.inj hs
      rw [pow_zero, one_mul]
      exact g.largest_spec.1
  | succ k ih =>
      obtain ⟨t, ht, hstep⟩ := Option.bind_eq_some_iff.1 hs
      rw [pow_succ', mul_assoc]
      exact isBounded_of_step? hstep (ih ht)

omit [IsStrictOrderedRing K] [LawfulBEq K] in
/-- The buffer that the steps work on is that of the grid. -/
theorem steps_flat {g : Grid K n n} {k : Nat} {hk : k ≤ n} {s : Triangulation K n} (hs : after g k hk = some s) :
    Checked.steps (Checked.triangulate n) k (g.flat, 1) = .ok (some (s.grid.flat, s.product)) := by
  have hsteps := Checked.steps_eq (fun t : Triangulation K n => (t.grid.flat, t.product)) (after g) rfl
    (fun _ _ => rfl) (fun k s => Checked.triangulate_flat s k) hk
  rw [hsteps, hs]
  rfl

/-- After `k` steps no entry of the grid that is worked on has grown by more than `2 ^ k`. The next step takes the
first of the rows with a largest entry, and subtracts from the rows below multiples of it of at most one. -/
theorem growth_bounded (g : Grid K n n) {k : Nat} {hk : k ≤ n} {s : Triangulation K n}
    (hs : after g k hk = some s) :
    Checked.steps (Checked.triangulate n) k (g.flat, 1) = .ok (some (s.grid.flat, s.product)) ∧
      (∀ i j, |s.grid.entry i j| ≤ 2 ^ k * g.largest) ∧
      ∀ c : Fin n, c.val = k →
        s.grid.IsFirstLargest c c (s.grid.pivotRow c c) ∧
        ∀ s', s.step? c = some s' → ∀ i, c < i →
          |(s.grid.pivoted c).multiplier c i| ≤ 1 ∧
          s'.grid.get i = Grid.reduceRow ((s.grid.pivoted c).get i) ((s.grid.pivoted c).get c)
            ((s.grid.pivoted c).multiplier c i) c := by
  refine ⟨steps_flat hs, isBounded_after hs, fun c _ =>
    ⟨s.grid.isFirstLargest_pivotRow c c, fun s' hs' i hi => ?_⟩⟩
  obtain ⟨-, rfl⟩ := eq_of_step? hs'
  exact ⟨s.grid.abs_multiplier_pivoted_le_one hi, (Grid.get_clearBelow _ c i).trans (if_pos hi)⟩

/-- Ones on the diagonal and in the last column, and minus ones below the diagonal. -/
def doubling : Grid ℚ 4 4 := Grid.ofFn fun i j => if j < i then -1 else if i = j ∨ j = 3 then 1 else 0

/-- The last column doubles with every step. -/
theorem growth_bounded_of_doubling :
    ∃ s s', after doubling 2 (by decide) = some s ∧ s.step? 2 = some s' ∧ doubling.largest = 1 ∧
      s.grid.entry 3 3 = 2 ^ 2 ∧ (∀ i j, |s.grid.entry i j| ≤ 2 ^ 2 * doubling.largest) ∧
      s.grid.IsFirstLargest 2 2 (s.grid.pivotRow 2 2) ∧ |(s.grid.pivoted 2).multiplier 2 3| ≤ 1 := by
  have hsome : (after doubling 3 (by decide)).isSome := by decide +kernel
  obtain ⟨s', hs'⟩ := Option.isSome_iff_exists.mp hsome
  obtain ⟨s, hs, hstep⟩ := Option.bind_eq_some_iff.mp hs'
  have hentry : (after doubling 2 (by decide)).map (·.grid.entry 3 3) = some (2 ^ 2) := by decide +kernel
  have hlargest : doubling.largest = 1 := by decide +kernel
  rw [hs] at hentry
  obtain ⟨-, hgrowth, hnext⟩ := growth_bounded doubling hs
  obtain ⟨hpivot, hmultiplier⟩ := hnext 2 rfl
  exact ⟨s, s', hs, hstep, hlargest, Option.some.inj hentry, hgrowth, hpivot,
    (hmultiplier s' hstep 3 (by decide)).1⟩

end Triangulation

end DeskCalc
