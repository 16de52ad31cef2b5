import DeskCalc.Matrix.Elimination
import Mathlib.LinearAlgebra.Matrix.Block
import Mathlib.LinearAlgebra.Matrix.Determinant.Basic
import Mathlib.Algebra.Order.Group.Unbundled.Abs
import Mathlib.Algebra.Order.Ring.Defs

/-!
Row operations on grids over an ordered field, where arithmetic is exact. A grid is read as a matrix of
the algebra library, an exchange of rows as a permutation of them, and the search for a pivot as the choice
of an entry that vanishes only if all entries in question do.
-/

namespace DeskCalc

theorem magnitude_eq_abs {K : Type} [AddCommGroup K] [LinearOrder K] [IsOrderedAddMonoid K] (x : K) :
    magnitude x = |x| := by
  unfold magnitude
  split
  · rename_i h
    exact (abs_of_neg h).symm
  · rename_i h
    exact (abs_of_nonneg (not_lt.mp h)).symm

namespace Grid

variable {K : Type} {n m : Nat}

def toMatrix (g : Grid K n m) : Matrix (Fin n) (Fin m) K := g.entry

@[simp] theorem toMatrix_apply (g : Grid K n m) (i : Fin n) (j : Fin m) : g.toMatrix i j = g.entry i j := rfl

theorem toMatrix_injective : Function.Injective (toMatrix : Grid K n m → Matrix (Fin n) (Fin m) K) := by
  intro g h heq
  exact Grid.ext fun i j => congrFun (congrFun heq i) j

theorem toMatrix_swapRows (g : Grid K n m) (i j : Fin n) :
    (g.swapRows i j).toMatrix = g.toMatrix.submatrix (Equiv.swap i j) id := by
  ext r c
  rw [toMatrix_apply, entry_swapRows, Matrix.submatrix_apply, toMatrix_apply, Equiv.swap_apply_def]
  split
  · rfl
  · split <;> rfl

theorem entry_swapRows_swap (g : Grid K n m) (i j r : Fin n) (c : Fin m) :
    (g.swapRows i j).entry r c = g.entry (Equiv.swap i j r) c :=
  congrFun (congrFun (toMatrix_swapRows g i j) r) c

section Field

variable [Field K] [BEq K] [LawfulBEq K]

/-- Without a factor nothing is computed, and nothing would change. -/
theorem get_reduceRow (target source : Vector K m) (factor : K) (start : Nat) (j : Fin m) :
    (reduceRow target source factor start).get j =
      if start ≤ j.val then target.get j - factor * source.get j else target.get j := by
  unfold reduceRow
  by_cases hfactor : factor = 0
  · rw [if_pos (beq_iff_eq.mpr hfactor), hfactor, zero_mul, sub_zero, ite_self]
  · rw [if_neg (fun h => hfactor (beq_iff_eq.mp h)), get_eq_getElem, Vector.getElem_ofFn]

theorem entry_clearBelow (g : Grid K n n) (k i j : Fin n) :
    (g.clearBelow k).entry i j =
      if k < i ∧ k ≤ j then g.entry i j - g.entry i k / g.entry k k * g.entry k j else g.entry i j := by
  have hrow : (g.clearBelow k).get i =
      if k < i then reduceRow (g.get i) (g.get k) (g.entry i k / g.entry k k) k else g.get i := by
    rw [clearBelow, get_eq_getElem, Vector.getElem_ofFn]
  rw [entry, hrow]
  by_cases hi : k < i
  · rw [if_pos hi, get_reduceRow]
    by_cases hj : k ≤ j
    · rw [if_pos (Fin.le_def.mp hj), if_pos ⟨hi, hj⟩]
      rfl
    · rw [if_neg (mt Fin.le_def.mpr hj), if_neg fun h => hj h.2]
      rfl
  · rw [if_neg hi, if_neg fun h => hi h.1]
    rfl

end Field

section Pivot

variable [Field K] [LinearOrder K] [IsStrictOrderedRing K]

/-- The row with the larger entry in column `c`. -/
def largerRow (g : Grid K n m) (c : Fin m) (best i : Fin n) : Fin n :=
  if magnitude (g.entry best c) < magnitude (g.entry i c) then i else best

theorem largerRow_spec (g : Grid K n m) (c : Fin m) (best i : Fin n) :
    (g.largerRow c best i = best ∨ g.largerRow c best i = i) ∧
      |g.entry best c| ≤ |g.entry (g.largerRow c best i) c| ∧
      |g.entry i c| ≤ |g.entry (g.largerRow c best i) c| := by
  rw [largerRow, magnitude_eq_abs, magnitude_eq_abs]
  split
  · rename_i h
    exact ⟨Or.inr rfl, h.le, le_rfl⟩
  · rename_i h
    exact ⟨Or.inl rfl, le_rfl, not_lt.mp h⟩

theorem foldl_largerRow_spec (g : Grid K n m) (c : Fin m) (rows : List (Fin n)) (k : Fin n) :
    (rows.foldl (g.largerRow c) k = k ∨ rows.foldl (g.largerRow c) k ∈ rows) ∧
      |g.entry k c| ≤ |g.entry (rows.foldl (g.largerRow c) k) c| ∧
      ∀ i ∈ rows, |g.entry i c| ≤ |g.entry (rows.foldl (g.largerRow c) k) c| := by
  induction rows generalizing k with
  | nil => exact ⟨Or.inl rfl, le_rfl, fun i hi => by cases hi⟩
  | cons r rows ih =>
      obtain ⟨hchoice, hbest, hr⟩ := g.largerRow_spec c k r
      obtain ⟨hmem, hfirst, hrest⟩ := ih (g.largerRow c k r)
      rw [List.foldl_cons]
      refine ⟨?_, hbest.trans hfirst, ?_⟩
      · rcases hmem with heq | hmem
        · rw [heq]
          rcases hchoice with h | h
          · exact Or.inl h
          · exact Or.inr (h.symm ▸ List.mem_cons_self)
        · exact Or.inr (List.mem_cons_of_mem r hmem)
      · intro i hi
        rcases List.mem_cons.mp hi with rfl | hi
        · exact hr.trans hfirst
        · exact hrest i hi

/-- The pivot row is not above row `k`, and no entry of column `c` from row `k` on is larger in magnitude
than the one in it. -/
theorem pivotRow_spec (g : Grid K n m) (k : Fin n) (c : Fin m) :
    k ≤ g.pivotRow k c ∧ ∀ i, k ≤ i → |g.entry i c| ≤ |g.entry (g.pivotRow k c) c| := by
  have hrow : g.pivotRow k c = ((List.finRange n).filter (k < ·)).foldl (g.largerRow c) k := rfl
  have hbelow : ∀ i, i ∈ (List.finRange n).filter (k < ·) ↔ k < i := by simp
  obtain ⟨hmem, hfirst, hrest⟩ := g.foldl_largerRow_spec c ((List.finRange n).filter (k < ·)) k
  rw [← hrow] at hmem hfirst hrest
  refine ⟨?_, fun i hi => ?_⟩
  · rcases hmem with heq | hmem
    · exact heq.ge
    · exact ((hbelow _).mp hmem).le
  · rcases hi.eq_or_lt with rfl | hlt
    · exact hfirst
    · exact hrest i ((hbelow i).mpr hlt)

theorem le_pivotRow (g : Grid K n m) (k : Fin n) (c : Fin m) : k ≤ g.pivotRow k c :=
  (g.pivotRow_spec k c).1

/-- A pivot is zero only if the column vanishes from row `k` on. -/
theorem entry_eq_zero_of_pivot (g : Grid K n m) (k : Fin n) (c : Fin m)
    (hpivot : g.entry (g.pivotRow k c) c = 0) {i : Fin n} (hi : k ≤ i) : g.entry i c = 0 := by
  have hle := (g.pivotRow_spec k c).2 i hi
  rw [hpivot, abs_zero] at hle
  exact abs_nonpos_iff.mp hle

end Pivot

end Grid

/-- A run of steps that may fail: an invariant of the steps holds after each of them, and a failure has the
consequence that the failure of a single step has. -/
theorem holds_after {S : Type} {n : Nat} {step? : S → Fin n → Option S} {start : S}
    {after : (k : Nat) → k ≤ n → Option S} {Holds : Nat → S → Prop} {Failed : Prop}
    (hzero : after 0 (Nat.zero_le n) = some start)
    (hsucc : ∀ k (h : k + 1 ≤ n), after (k + 1) h = (after k (Nat.le_of_succ_le h)).bind (step? · ⟨k, h⟩))
    (hstart : Holds 0 start)
    (hstep : ∀ (k : Fin n) (s s' : S), Holds k s → step? s k = some s' → Holds (k + 1) s')
    (hfailure : ∀ (k : Fin n) (s : S), Holds k s → step? s k = none → Failed) {k : Nat} (hk : k ≤ n) :
    (∀ s, after k hk = some s → Holds k s) ∧ (after k hk = none → Failed) := by
  induction k with
  | zero =>
      rw [hzero]
      refine ⟨fun s hs => ?_, fun hnone => by cases hnone⟩
      obtain rfl := Option.some.inj hs
      exact hstart
  | succ k ih =>
      obtain ⟨hholds, hfailed⟩ := ih (Nat.le_of_succ_le hk)
      rw [hsucc]
      cases hafter : after k (Nat.le_of_succ_le hk) with
      | none => exact ⟨fun s hs => (by cases hs), fun _ => hfailed hafter⟩
      | some s₁ =>
          have hs₁ := hholds s₁ hafter
          exact ⟨fun s hs => hstep ⟨k, hk⟩ s₁ s hs₁ hs, fun hnone => hfailure ⟨k, hk⟩ s₁ hs₁ hnone⟩

/-- An exchange of row `k` with one below it leaves the rows above alone. -/
theorem swap_of_lt {n : Nat} {p k i : Fin n} (hkp : k ≤ p) (hi : i < k) : Equiv.swap p k i = i :=
  Equiv.swap_apply_of_ne_of_ne (hi.trans_le hkp).ne hi.ne

theorem le_swap {n : Nat} {p k i : Fin n} (hkp : k ≤ p) (hi : k ≤ i) : k ≤ Equiv.swap p k i := by
  rw [Equiv.swap_apply_def]
  split
  · exact le_rfl
  · split
    · exact hkp
    · exact hi

/-- A square matrix has determinant zero if `k + 1` of its columns vanish in all but `k` rows. -/
theorem det_eq_zero_of_block {K : Type} [Field K] {n : Nat} (M : Matrix (Fin n) (Fin n) K) (k : Fin n)
    (hblock : ∀ i j, k ≤ i → j ≤ k → M i j = 0) : M.det = 0 := by
  rw [Matrix.det_apply]
  refine Finset.sum_eq_zero fun σ _ => ?_
  -- the permutation cannot take the columns up to `k` to the rows above `k`
  obtain ⟨j, hj, hrow⟩ : ∃ j, j ≤ k ∧ k ≤ σ j := by
    by_contra hnone
    push Not at hnone
    have hcard : (Finset.Iic k).card ≤ (Finset.Iio k).card :=
      Finset.card_le_card_of_injOn σ (fun j hj => Finset.mem_coe.mpr (Finset.mem_Iio.mpr
        (hnone j (Finset.mem_Iic.mp (Finset.mem_coe.mp hj))))) σ.injective.injOn
    rw [Fin.card_Iic, Fin.card_Iio] at hcard
    omega
  have hterm : ∏ i, M (σ i) i = 0 := Finset.prod_eq_zero (Finset.mem_univ j) (hblock (σ j) j hrow hj)
  rw [hterm, smul_zero]

end DeskCalc
