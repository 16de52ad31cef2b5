import DeskCalc.Matrix.Elimination
import DeskCalc.Proofs.Matrix.RowMajor

/-!
Elimination in a buffer. The rows are searched, exchanged and reduced in place, and no step makes a misstep: a pivot is
compared with zero before anything is divided by it, and an exchange of rows brings exactly that entry onto the
diagonal. The buffers are those of the grids that elimination goes through, whatever the values are, and so it finds
the determinant.
-/

namespace DeskCalc

namespace Grid

variable {α : Type} {n m : Nat}

theorem setRow_get (g : Grid α n m) (i : Fin n) : g.setRow i (g.get i) = g := by
  refine ext_get fun r => ?_
  rw [get_setRow, ite_eq_right_iff]
  exact fun hr => hr ▸ rfl

theorem get_swapRows (g : Grid α n m) (i j r : Fin n) :
    (g.swapRows i j).get r = if r = i then g.get j else if r = j then g.get i else g.get r := by
  simp only [swapRows, get_eq_getElem, Vector.getElem_swap, Fin.ext_iff]

/-- An exchange of a row with row `k` brings its entries into row `k`. -/
theorem entry_swapRows_right (g : Grid α n m) (p k : Fin n) (c : Fin m) :
    (g.swapRows p k).entry k c = g.entry p c := by
  rw [entry_swapRows]
  split
  next h => rw [h]
  next => rw [if_pos rfl]

theorem swapRows_self (g : Grid α n m) (i : Fin n) : g.swapRows i i = g := by
  ext r c
  rw [entry_swapRows]
  split
  next hr => rw [hr]
  next => rfl

theorem get_clearBelow [OfNat α 0] [Sub α] [Mul α] [Div α] [BEq α] (g : Grid α n n) (k i : Fin n) :
    (g.clearBelow k).get i = if k < i then reduceRow (g.get i) (g.get k) (g.entry i k / g.entry k k) k else g.get i := by
  rw [clearBelow, get_eq_getElem, Vector.getElem_ofFn]

end Grid

namespace Checked

open Grid (flat)

section Programs

variable {α σ : Type}

/-- Rows `i` and `j` exchanged, entry by entry. -/
def swapRows (b : Array α) (width i j : Nat) : Checked (Array α) :=
  if i = j then return b else loop 0 width (fun t b => swap b (i * width + t) (j * width + t)) b

variable [OfNat α 0]

/-- The row from `k` on to before `n` with the largest entry of column `c`. -/
def pivotRow [Neg α] [LT α] [DecidableLT α] (b : Array α) (width k n c : Nat) : Checked Nat := do
  let first ← read b (k * width + c)
  let best ← loop (k + 1) n (fun i best => do
    let x ← read b (i * width + c)
    return if best.2 < magnitude x then (i, magnitude x) else best) (k, magnitude first)
  return best.1

/-- Row `i` less `factor` times row `k`, from column `start` on. -/
def reduceRow [Sub α] [Mul α] [BEq α] (b : Array α) (width i k start : Nat) (factor : α) : Checked (Array α) :=
  if factor == 0 then return b
  else
    loop start width (fun j b => do
      let x ← read b (i * width + j)
      let y ← read b (k * width + j)
      write b (i * width + j) (x - factor * y)) b

/-- The rows below row `k` less multiples of it, so that column `k` vanishes there. -/
def clearBelow [Sub α] [Mul α] [Div α] [BEq α] (b : Array α) (n k : Nat) (pivot : α) : Checked (Array α) :=
  loop (k + 1) n (fun i b => do
    let x ← read b (i * n + k)
    let factor ← divide x pivot
    reduceRow b n i k k factor) b

/-- The first `count` steps, as long as none of them gives up. -/
def steps (step : Nat → σ → Checked (Option σ)) : Nat → σ → Checked (Option σ)
  | 0, s => return some s
  | count + 1, s => do
    match ← steps step count s with
    | none => return none
    | some s => step count s

variable [OfNat α 1] [Neg α] [Sub α] [Mul α] [Div α] [BEq α] [LT α] [DecidableLT α]

/-- One step of the determinant of `n` rows: column `k` cleared below the diagonal, and the product so far. -/
def triangulate (n k : Nat) (s : Array α × α) : Checked (Option (Array α × α)) := do
  let p ← pivotRow s.1 n k n k
  let candidate ← read s.1 (p * n + k)
  if candidate == 0 then return none
  else
    let b ← swapRows s.1 n p k
    let pivot ← read b (k * n + k)
    let b ← clearBelow b n k pivot
    return some (b, (if p = k then s.2 else -s.2) * pivot)

def determinant (n : Nat) (b : Array α) : Checked α := do
  match ← steps (triangulate n) n (b, 1) with
  | none => return 0
  | some s => return s.2

end Programs

/-! ### Rows -/

section Rows

variable {α : Type} {n m : Nat}

theorem pivotRow_flat [OfNat α 0] [Neg α] [LT α] [DecidableLT α] (g : Grid α n m) (k : Fin n) (c : Fin m) :
    pivotRow g.flat m k n c = .ok (g.pivotRow k c).val := by
  -- the search keeps the magnitude that it has found beside the row
  let view (best : Fin n) : Nat × α := (best.val, magnitude (g.entry best c))
  have hloop : loop (k + 1) n (fun i best => do
      let x ← read g.flat (i * m + c)
      return if best.2 < magnitude x then (i, magnitude x) else best) (view k) = .ok (view (g.pivotRow k c)) := by
    refine loop_foldl view (map_val_filter_lt k) (fun i _ best => ?_) k
    rw [read_flat, ok_bind]
    dsimp only [view]
    split
    · rfl
    · rfl
  rw [pivotRow, read_flat, ok_bind, hloop]
  rfl

theorem swap_flat (g : Grid α n m) (i j : Fin n) (t : Fin m) :
    swap g.flat (i * m + t) (j * m + t) =
      .ok ((g.setEntry i t (g.entry j t)).setEntry j t (g.entry i t)).flat := by
  rw [swap, read_flat, ok_bind, read_flat, ok_bind, write_flat, ok_bind, write_flat]

theorem swapRows_flat (g : Grid α n m) (i j : Fin n) :
    swapRows g.flat m i j = .ok (g.swapRows i j).flat := by
  -- two different rows are needed: the second value is read before the first one is overwritten
  by_cases hij : i = j
  · rw [swapRows, if_pos (congrArg Fin.val hij), hij, Grid.swapRows_self]
    rfl
  · rw [swapRows, if_neg fun h => hij (Fin.ext h)]
    refine loop_columns fun t h hentry => ?_
    have hi : h.entry i t = g.entry i t := by rw [hentry, if_neg (lt_irrefl t)]
    have hj : h.entry j t = g.entry j t := by rw [hentry, if_neg (lt_irrefl t)]
    rw [swap_flat, hi, hj]
    congr 2
    ext r c
    rw [Grid.entry_setEntry, Grid.entry_setEntry, Grid.entry_setColumn, Grid.entry_swapRows]
    by_cases hc : c = t
    · simp only [hc, and_true, if_true]
      by_cases hr : r = i
      · rw [if_neg (hr ▸ hij), if_pos hr, if_pos hr]
      · rw [if_neg hr, if_neg hr, hentry, if_neg (lt_irrefl t)]
    · simp only [hc, and_false, if_false]

variable [OfNat α 0] [BEq α]

theorem reduceRow_flat [Sub α] [Mul α] (g : Grid α n m) {i k : Fin n} (hik : i ≠ k) {start : Nat}
    (hstart : start ≤ m) (factor : α) :
    reduceRow g.flat m i k start factor =
      .ok (g.setRow i (Grid.reduceRow (g.get i) (g.get k) factor start)).flat := by
  unfold reduceRow Grid.reduceRow
  split
  · rw [Grid.setRow_get]
    rfl
  · refine loop_setRow hstart le_rfl (fun c hc => ?_) fun j h hj _ hothers hhere => ?_
    · have hc : c.val < start := hc.resolve_right (Nat.not_le.2 c.isLt)
      rw [Grid.get_eq_getElem, Vector.getElem_ofFn, if_neg (Nat.not_le.2 hc)]
      rfl
    · have hsource : h.entry k j = g.entry k j := congrArg (·.get j) (hothers k hik.symm)
      rw [read_flat, ok_bind, read_flat, ok_bind, write_flat, hhere, hsource, Grid.get_eq_getElem,
        Vector.getElem_ofFn, if_pos hj]
      rfl

theorem divide_of_ne_zero [Div α] {y : α} (h : ¬(y == 0) = true) (x : α) : divide x y = .ok (x / y) := if_neg h

theorem clearBelow_flat [Sub α] [Mul α] [Div α] (g : Grid α n n) (k : Fin n) {pivot : α}
    (hentry : g.entry k k = pivot) (hpivot : ¬(pivot == 0) = true) :
    clearBelow g.flat n k pivot = .ok (g.clearBelow k).flat := by
  refine loop_rows k.isLt (fun r hr => ?_) fun i h hi hrows => ?_
  · rw [Grid.get_clearBelow, if_neg (not_lt.2 (Fin.le_def.2 (Nat.le_of_lt_succ hr)))]
  · have hki : k < i := hi
    have hsource : h.get k = g.get k := by
      rw [hrows, if_pos hki, Grid.get_clearBelow, if_neg (lt_irrefl k)]
    have htarget : h.get i = g.get i := by rw [hrows, if_neg (lt_irrefl i)]
    have hfactor : h.entry i k = g.entry i k := congrArg (·.get k) htarget
    rw [read_flat, ok_bind, divide_of_ne_zero hpivot, ok_bind, reduceRow_flat h hki.ne' k.isLt.le, hsource, htarget,
      hfactor, Grid.get_clearBelow, if_pos hki, hentry]

end Rows

/-! ### The determinant -/

/-- Steps over buffers that follow steps over grids, to their end or to the step that gives up. -/
theorem steps_eq {S σ : Type} {n : Nat} (view : S → σ) (after : (k : Nat) → k ≤ n → Option S)
    {step : Nat → σ → Checked (Option σ)} {step? : S → Fin n → Option S} {start : S}
    (hzero : after 0 (Nat.zero_le n) = some start)
    (hsucc : ∀ k (h : k + 1 ≤ n), after (k + 1) h = (after k (Nat.le_of_succ_le h)).bind (step? · ⟨k, h⟩))
    (hstep : ∀ (k : Fin n) (s : S), step k (view s) = .ok ((step? s k).map view)) {k : Nat} (hk : k ≤ n) :
    steps step k (view start) = .ok ((after k hk).map view) := by
  induction k with
  | zero =>
      rw [hzero]
      rfl
  | succ k ih =>
      rw [steps, ih (Nat.le_of_succ_le hk), hsucc]
      cases after k (Nat.le_of_succ_le hk) with
      | none => rfl
      | some s => exact hstep ⟨k, hk⟩ s

section Elimination

variable {α : Type} [OfNat α 0] [OfNat α 1] [Neg α] [Sub α] [Mul α] [Div α] [BEq α] [LT α] [DecidableLT α]
  {n m : Nat}

omit [OfNat α 1] in
theorem triangulate_flat (s : Triangulation α n) (k : Fin n) :
    triangulate n k (s.grid.flat, s.product) =
      .ok ((s.step? k).map fun t => (t.grid.flat, t.product)) := by
  unfold triangulate Triangulation.step?
  simp only [pivotRow_flat, ok_bind, read_flat]
  split
  · rfl
  · rename_i hcandidate
    generalize s.grid.pivotRow k k = p at hcandidate
    rw [← Grid.entry_swapRows_right s.grid p k k] at hcandidate
    rw [swapRows_flat, ok_bind, read_flat, ok_bind, clearBelow_flat _ k rfl hcandidate]
    simp only [ok_bind, Fin.val_inj]
    rfl

theorem determinant_flat (g : Grid α n n) : determinant n g.flat = .ok g.determinant := by
  have hsteps := steps_eq (fun t : Triangulation α n => (t.grid.flat, t.product)) (Triangulation.after g) rfl
    (fun _ _ => rfl) (fun k s => triangulate_flat s k) le_rfl
  rw [determinant, Grid.determinant, hsteps, ok_bind]
  cases Triangulation.after g n le_rfl with
  | none => rfl
  | some s => rfl

end Elimination

end Checked

end DeskCalc
