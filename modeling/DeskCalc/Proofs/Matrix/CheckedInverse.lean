import DeskCalc.Matrix.Inverse
import DeskCalc.Proofs.Matrix.CheckedElimination

/-!
The inverse in a buffer. The matrix and the identity stand side by side in one buffer of `2n` columns, and the two grids
of the elimination are the left and the right half of it: one operation on a row of the buffer is one on a row of each.
A row is divided by its pivot only, which has been compared with zero, and the copies at the start and at the end are
slices in range.
-/

namespace DeskCalc

namespace Grid

variable {α : Type} {n m : Nat}

theorem get_append_castAdd (u : Vector α n) (v : Vector α m) (j : Fin n) : (u ++ v).get (j.castAdd m) = u.get j :=
  Vector.getElem_append_left j.isLt

theorem get_append_natAdd (u : Vector α n) (v : Vector α m) (j : Fin m) : (u ++ v).get (j.natAdd n) = v.get j := by
  refine (Vector.getElem_append_right (j.natAdd n).isLt (Nat.le_add_right n j)).trans ?_
  simp only [Fin.val_natAdd, Nat.add_sub_cancel_left, get_eq_getElem]

section Reduction

variable [OfNat α 0] [Sub α] [Mul α] [BEq α]

/-- All rows but row `k` reduced by the multiple of it that column `c` asks for. -/
def clearOthers (g : Grid α n m) (k : Fin n) (c : Fin m) : Grid α n m :=
  Vector.ofFn fun i => if i = k then g.get k else reduceRow (g.get i) (g.get k) (g.entry i c) 0

theorem get_clearOthers (g : Grid α n m) (k i : Fin n) (c : Fin m) : (g.clearOthers k c).get i =
    if i = k then g.get k else reduceRow (g.get i) (g.get k) (g.entry i c) 0 := by
  rw [clearOthers, get_eq_getElem, Vector.getElem_ofFn]

theorem reduceRow_append {m' : Nat} (target source : Vector α m) (target' source' : Vector α m') (factor : α) :
    reduceRow (target ++ target') (source ++ source') factor 0 =
      reduceRow target source factor 0 ++ reduceRow target' source' factor 0 := by
  unfold reduceRow
  split
  · rfl
  · apply Vector.ext
    intro j hj
    simp only [Vector.getElem_ofFn, Nat.zero_le, if_true, get_eq_getElem, Vector.getElem_append]
    split
    · rfl
    · rfl

end Reduction

end Grid

namespace Augmented

variable {α : Type} {n : Nat}

/-- The two grids side by side. -/
def joined (s : Augmented α n) : Grid α n (n + n) := Vector.ofFn fun i => s.left.get i ++ s.right.get i

@[simp] theorem get_joined (s : Augmented α n) (i : Fin n) : s.joined.get i = s.left.get i ++ s.right.get i := by
  rw [joined, Grid.get_eq_getElem, Vector.getElem_ofFn]

theorem entry_joined (s : Augmented α n) (i j : Fin n) : s.joined.entry i (j.castAdd n) = s.left.entry i j := by
  rw [Grid.entry, get_joined, Grid.get_append_castAdd]
  rfl

theorem swapRows_joined (s : Augmented α n) (p k : Fin n) :
    s.joined.swapRows p k = (mk (s.left.swapRows p k) (s.right.swapRows p k)).joined := by
  refine Grid.ext_get fun r => ?_
  simp only [get_joined, Grid.get_swapRows]
  split
  · rfl
  · split <;> rfl

theorem pivotRow_joined [OfNat α 0] [Neg α] [LT α] [DecidableLT α] (s : Augmented α n) (k : Fin n) :
    s.joined.pivotRow k (k.castAdd n) = s.left.pivotRow k k := by
  simp only [Grid.pivotRow, entry_joined]

section Step

variable [OfNat α 0] [Sub α] [Mul α] [BEq α]

theorem get_clearOthers (left rows : Grid α n n) (source : Vector α n) (k i : Fin n) :
    (clearOthers left rows source k).get i =
      if i = k then source else Grid.reduceRow (rows.get i) source (left.entry i k) 0 := by
  rw [clearOthers, Grid.get_eq_getElem, Vector.getElem_ofFn]

/-- The two grids undergo the same operations, as one. -/
theorem clearOthers_joined [Div α] (s : Augmented α n) (k : Fin n) (pivot : α) :
    (s.joined.setRow k ((s.joined.get k).map (· / pivot))).clearOthers k (k.castAdd n) =
      (mk (clearOthers s.left s.left ((s.left.get k).map (· / pivot)) k)
        (clearOthers s.left s.right ((s.right.get k).map (· / pivot)) k)).joined := by
  refine Grid.ext_get fun r => ?_
  simp only [Grid.get_clearOthers, get_joined, get_clearOthers, Grid.get_setRow, if_true, Vector.map_append]
  by_cases hr : r = k
  · rw [if_pos hr, if_pos hr, if_pos hr]
  · rw [if_neg hr, if_neg hr, if_neg hr, if_neg hr, Grid.entry_setRow, if_neg hr, entry_joined, Grid.reduceRow_append]

end Step

end Augmented

namespace Checked

open Grid (flat)

section Programs

variable {α : Type}

/-- The `count` values of `row` put at the front of row `i`. -/
def copyRow (b : Array α) (width i count : Nat) (row : Array α) : Checked (Array α) :=
  loop 0 count (fun j b => do
    let x ← read row j
    write b (i * width + j) x) b

/-- The rows of a square matrix, each followed by the row of the identity. -/
def augment [OfNat α 0] [OfNat α 1] (width n : Nat) (a : Array α) : Checked (Array α) :=
  loop 0 n (fun i b => do
    let row ← slice a (i * n) ((i + 1) * n)
    let b ← copyRow b width i n row
    write b (i * width + n + i) 1) (Array.replicate (n * width) 0)

/-- What stands behind the first `n` values of each row. -/
def rightHalf (width n : Nat) (b : Array α) : Checked (Array α) :=
  loop 0 n (fun i out => do
    let row ← slice b (i * width + n) ((i + 1) * width)
    return out ++ row) #[]

variable [OfNat α 0] [Sub α] [Mul α] [Div α] [BEq α]

/-- Row `k` divided by `pivot`. -/
def divideRow (b : Array α) (width k : Nat) (pivot : α) : Checked (Array α) :=
  loop 0 width (fun j b => do
    let x ← read b (k * width + j)
    let y ← divide x pivot
    write b (k * width + j) y) b

/-- All rows but row `k` less multiples of it, so that column `k` vanishes there. -/
def clearOthers (b : Array α) (width n k : Nat) : Checked (Array α) :=
  loop 0 n (fun i b =>
    if i = k then return b
    else do
      let factor ← read b (i * width + k)
      reduceRow b width i k 0 factor) b

variable [OfNat α 1] [Neg α] [LT α] [DecidableLT α]

/-- One step of the inverse: column `k` cleared in all rows but row `k`, which is divided by the pivot. -/
def clearColumn (width n k : Nat) (b : Array α) : Checked (Option (Array α)) := do
  let p ← pivotRow b width k n k
  let candidate ← read b (p * width + k)
  if candidate == 0 then return none
  else
    let b ← swapRows b width p k
    let pivot ← read b (k * width + k)
    let b ← divideRow b width k pivot
    let b ← clearOthers b width n k
    return some b

def inverse [RangeChecked α] (n : Nat) (a : Array α) : Checked (Option (Array α)) := do
  let b ← augment (2 * n) n a
  match ← steps (clearColumn (2 * n) n) n b with
  | none => return none
  | some b => do
    let out ← rightHalf (2 * n) n b
    return if out.all RangeChecked.isFinite then some out else none

end Programs

/-! ### The two halves -/

section Halves

variable {α : Type} {n m : Nat}

theorem copyRow_flat {k : Nat} (h : Grid α n (k + m)) (i : Fin n) (v : Vector α k) {u : Vector α k} {w : Vector α m}
    (hrow : h.get i = u ++ w) : copyRow h.flat (k + m) i k v.toArray = .ok (h.setRow i (v ++ w)).flat := by
  refine loop_setRow (Nat.zero_le k) (Nat.le_add_right k m) (fun c hc => ?_) fun j h' _ hj _ _ => ?_
  · rw [Grid.entry, hrow]
    induction c using Fin.addCases with
    | left j => exact absurd j.isLt (Nat.not_lt.2 (by simpa using hc))
    | right j => rw [Grid.get_append_natAdd, Grid.get_append_natAdd]
  · have hread := read_toArray ⟨j, hj⟩ v
    have hcopied : (v ++ w).get j = v.get ⟨j, hj⟩ := Grid.get_append_castAdd v w ⟨j, hj⟩
    rw [hread, ok_bind, write_flat, hcopied]

theorem augment_flat [OfNat α 0] [OfNat α 1] (g : Grid α n n) :
    augment (n + n) n g.flat = .ok (Augmented.mk g (Grid.ofFn fun i j => if i = j then 1 else 0)).joined.flat := by
  rw [augment, replicate_eq_flat]
  refine loop_rows (Nat.zero_le n) (fun _ hr => absurd hr (Nat.not_lt_zero _)) fun i h _ hrows => ?_
  -- the row is copied into zeros, and a one is written behind it
  let zeros : Vector α n := Vector.replicate n 0
  have hzeros : h.get i = zeros ++ zeros := by
    rw [hrows, if_neg (lt_irrefl i), Vector.replicate_append_replicate]
    apply Vector.ext
    intro c hc
    simp only [Grid.ofFn, Grid.get_eq_getElem, Vector.getElem_ofFn, Vector.getElem_replicate]
  have hslice := slice_flat g i (Nat.zero_le n) le_rfl
  rw [Nat.add_zero, ← Nat.succ_mul, Array.extract_eq_self_of_le (g.get i).size_toArray.le] at hslice
  have hwrite := write_flat (h.setRow i (g.get i ++ zeros)) i (i.natAdd n) 1
  rw [Fin.val_natAdd] at hwrite
  rw [hslice, ok_bind, copyRow_flat h i (g.get i) hzeros, ok_bind, Nat.add_assoc, hwrite]
  congr 2
  ext r c
  rw [Grid.entry_setEntry, Grid.entry_setRow, Grid.entry_setRow, Augmented.get_joined]
  by_cases hr : r = i
  · rw [if_pos hr, if_pos hr]
    induction c using Fin.addCases with
    | left j =>
        have hne : j.castAdd n ≠ i.natAdd n := fun h => by
          have hval : j.val = n + i := congrArg Fin.val h
          omega
        rw [if_neg fun h => hne h.2, Grid.get_append_castAdd, Grid.get_append_castAdd]
    | right j =>
        have hentry : (Grid.ofFn fun i j : Fin n => if i = j then (1 : α) else 0).entry i j =
            if i = j then 1 else 0 := Grid.entry_ofFn _ i j
        have hzero : zeros.get j = 0 := Vector.getElem_replicate _
        rw [Grid.get_append_natAdd, Grid.get_append_natAdd, hzero]
        refine (if_congr ?_ rfl rfl).trans hentry.symm
        rw [Fin.natAdd_inj, eq_comm (a := j)]
        exact and_iff_right hr
  · rw [if_neg fun h => hr h.1, if_neg hr, if_neg hr]

theorem rightHalf_joined (s : Augmented α n) : rightHalf (n + n) n s.joined.flat = .ok s.right.flat := by
  -- what has been collected are the first rows of the right grid
  let state (i : Nat) : Array α := s.right.flat.extract 0 (i * n)
  have hfirst : state 0 = #[] := by
    simp only [state, Nat.zero_mul, Array.extract_zero]
  have hlast : state n = s.right.flat := Array.extract_eq_self_of_le s.right.size_flat.le
  rw [rightHalf, ← hlast, ← hfirst]
  refine loop_eq state (Nat.zero_le n) fun i _ hi => ?_
  have hslice := slice_flat s.joined ⟨i, hi⟩ (Nat.le_add_left n n) le_rfl
  have hrow := Grid.extract_flat s.right ⟨i, hi⟩ 0 le_rfl
  have hright : (s.joined.get ⟨i, hi⟩).toArray.extract n (n + n) = (s.right.get ⟨i, hi⟩).toArray.extract 0 n := by
    rw [Augmented.get_joined, Vector.toArray_append, Array.extract_append]
    simp
  rw [Nat.succ_mul, hslice, ok_bind, hright, ← hrow]
  refine congrArg Except.ok ?_
  show s.right.flat.extract 0 (i * n) ++ s.right.flat.extract (i * n) (i * n + n) = _
  rw [Array.extract_append_extract, Nat.zero_min, Nat.max_eq_right (Nat.le_add_right _ n), ← Nat.succ_mul]

end Halves

/-! ### Steps -/

section Steps

variable {α : Type} [OfNat α 0] [BEq α] {n m : Nat}

theorem divideRow_flat [Div α] (g : Grid α n m) (k : Fin n) {pivot : α} (hpivot : ¬(pivot == 0) = true) :
    divideRow g.flat m k pivot = .ok (g.setRow k ((g.get k).map (· / pivot))).flat := by
  refine loop_setRow (Nat.zero_le m) le_rfl (fun c hc => absurd c.isLt (by omega)) fun j h _ _ _ hhere => ?_
  rw [read_flat, ok_bind, divide_of_ne_zero hpivot, ok_bind, write_flat, hhere, Grid.get_eq_getElem,
    Vector.getElem_map]
  rfl

theorem clearOthers_flat [Sub α] [Mul α] (g : Grid α n m) {k : Fin n} {c : Fin m} (hc : c.val = k) :
    clearOthers g.flat m n k = .ok (g.clearOthers k c).flat := by
  refine loop_rows (Nat.zero_le n) (fun _ hr => absurd hr (Nat.not_lt_zero _)) fun i h _ hrows => ?_
  have htarget : h.get i = g.get i := by rw [hrows, if_neg (lt_irrefl i)]
  have hsource : h.get k = g.get k := by rw [hrows, Grid.get_clearOthers, if_pos rfl, ite_self]
  rw [Grid.get_clearOthers]
  by_cases hik : i = k
  · rw [if_pos (congrArg Fin.val hik), if_pos hik, hik, ← hsource, Grid.setRow_get]
    rfl
  · have hfactor : h.entry i c = g.entry i c := congrArg (·.get c) htarget
    rw [if_neg fun heq => hik (Fin.ext heq), ← hc, read_flat, ok_bind, hc, reduceRow_flat h hik (Nat.zero_le m),
      hsource, htarget, hfactor, if_neg hik]

variable [Neg α] [Sub α] [Mul α] [Div α] [LT α] [DecidableLT α]

theorem clearColumn_joined (s : Augmented α n) (k : Fin n) :
    clearColumn (n + n) n k s.joined.flat = .ok ((s.step? k).map fun t => t.joined.flat) := by
  -- column `k` of the buffer is column `k` of the left grid
  have hread (t : Augmented α n) (i : Fin n) : read t.joined.flat (i * (n + n) + k) = .ok (t.left.entry i k) := by
    have h := read_flat t.joined i (k.castAdd n)
    rwa [Augmented.entry_joined] at h
  have hsearch : pivotRow s.joined.flat (n + n) k n k = .ok (s.left.pivotRow k k).val := by
    have h := pivotRow_flat s.joined k (k.castAdd n)
    rwa [Augmented.pivotRow_joined] at h
  rw [clearColumn, Augmented.step?, hsearch, ok_bind, hread, ok_bind]
  simp only
  split
  · rfl
  · rename_i hcandidate
    generalize s.left.pivotRow k k = p at hcandidate
    rw [← Grid.entry_swapRows_right s.left p k k] at hcandidate
    rw [swapRows_flat, ok_bind, Augmented.swapRows_joined, hread, ok_bind, divideRow_flat _ k hcandidate, ok_bind,
      clearOthers_flat _ (k := k) (c := k.castAdd n) rfl, Augmented.clearOthers_joined]
    rfl

theorem inverse_flat [OfNat α 1] [RangeChecked α] (g : Grid α n n) : inverse n g.flat = .ok (g.inverse?.map flat) := by
  have hsteps := steps_eq (fun t : Augmented α n => t.joined.flat) (Augmented.after g) rfl (fun _ _ => rfl)
    (fun k s => clearColumn_joined s k) le_rfl
  rw [inverse, Nat.two_mul, augment_flat, ok_bind, hsteps, ok_bind, Grid.inverse?]
  cases Augmented.after g n le_rfl with
  | none => rfl
  | some s =>
      have hfinite : s.right.flat.all RangeChecked.isFinite = s.right.isFinite := by
        rw [← Array.all_toList, Grid.toList_flat, List.all_flatten, Grid.toRows, List.all_map, Grid.isFinite,
          ← Vector.all_toList]
        simp [Function.comp_def]
      simp only [Option.map_some]
      rw [rightHalf_joined, ok_bind, hfinite]
      cases hs : s.right.isFinite with
      | true => simp [hs, pure, Except.pure]
      | false => simp [hs, pure, Except.pure]

end Steps

end Checked

end DeskCalc
