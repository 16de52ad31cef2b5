import DeskCalc.Matrix.Rank
import DeskCalc.Proofs.Binary64.Maximum
import DeskCalc.Proofs.Matrix.Product
import DeskCalc.Proofs.Matrix.RowMajor

/-!
Singular values in buffers. The columns are read from the buffer of the matrix, each into a buffer of its own, and are
rotated in pairs; the later one of a pair is found in the second part of a split of the list of columns. No step makes a
misstep: the scale is compared with zero before anything is divided by it, and an angle is asked for only for columns
whose product has been compared with zero. The scale is the largest magnitude in the order of the rows, and for doubles
that order makes no difference.
-/

namespace DeskCalc

namespace Grid

variable {α : Type} {n m : Nat}

/-- The rows, each in a buffer of its own. -/
def buffers (g : Grid α n m) : Array (Array α) := (Vector.map Vector.toArray g).toArray

@[simp] theorem size_buffers (g : Grid α n m) : g.buffers.size = n := Vector.size_toArray _

theorem getElem_buffers (g : Grid α n m) {i : Nat} (h : i < g.buffers.size) :
    g.buffers[i] = (g.get ⟨i, g.size_buffers ▸ h⟩).toArray := by
  simp [buffers, get_eq_getElem]

theorem set_buffers (g : Grid α n m) (i : Fin n) (row : Vector α m) (h : i.val < g.buffers.size) :
    g.buffers.set i row.toArray h = (g.setRow i row).buffers := by
  apply Array.ext
  · rw [Array.size_set, size_buffers, size_buffers]
  · intro r _ _
    rw [Array.getElem_set, getElem_buffers, getElem_buffers, get_setRow]
    simp only [Fin.ext_iff, eq_comm (a := i.val)]
    split
    · rfl
    · rfl

/-- The entries, listed by their places. -/
theorem toList_flat_eq_map (g : Grid α n m) :
    g.flat.toList = (List.finRange n ×ˢ List.finRange m).map fun place => g.entry place.1 place.2 := by
  have hrow (v : Vector α m) : v.toList = (List.finRange m).map v.get := by
    apply List.ext_getElem
    · simp
    · intro j _ _
      simp [get_eq_getElem]
  have hrows : g.toRows = (List.finRange n).map fun i => (List.finRange m).map (g.entry i) := by
    apply List.ext_getElem
    · simp [toRows]
    · intro i _ _
      simp [toRows, hrow, entry, get_eq_getElem]
  rw [toList_flat, hrows, ← List.flatMap_def]
  show _ = (List.product _ _).map _
  rw [List.product, List.map_flatMap]
  simp only [List.map_map]
  rfl

/-- A transpose has the same entries in another order. -/
theorem flat_transpose_perm (g : Grid α n m) : g.transpose.flat.toList.Perm g.flat.toList := by
  have hplaces : (List.finRange m ×ˢ List.finRange n).Perm ((List.finRange n ×ˢ List.finRange m).map Prod.swap) := by
    rw [List.perm_ext_iff_of_nodup]
    · rintro ⟨j, i⟩
      simp
    · exact (List.nodup_finRange m).product (List.nodup_finRange n)
    · exact ((List.nodup_finRange n).product (List.nodup_finRange m)).map Prod.swap_injective
  rw [toList_flat_eq_map, toList_flat_eq_map]
  refine (hplaces.map _).trans (List.Perm.of_eq ?_)
  rw [List.map_map]
  refine List.map_congr_left fun place _ => ?_
  exact entry_transpose g place.2 place.1

/-- A fold over the entries, row after row. -/
theorem foldl_flat {σ : Type} {f : σ → α → σ} (g : Grid α n m) (s : σ) :
    g.flat.foldl f s = g.foldl (fun s row => row.foldl f s) s := by
  rw [← Array.foldl_toList, toList_flat, List.foldl_flatten, toRows, List.foldl_map, ← Vector.foldl_toList]
  simp only [Vector.foldl_toList]

/-- The largest magnitude of doubles is the same in the order of the rows and in that of the columns. -/
theorem largest_transpose (g : Grid Float n m) : g.transpose.largest = g.largest := by
  have hlargest {n m : Nat} (g : Grid Float n m) : g.largest = (g.flat.toList.map magnitude).foldl larger 0 := by
    rw [List.foldl_map, Array.foldl_toList, foldl_flat]
    rfl
  rw [hlargest, hlargest]
  exact Binary64.foldl_larger_perm ((flat_transpose_perm g).map magnitude) (by decide)

end Grid

namespace Checked

section Programs

variable {α σ : Type}

/-- The buffer with the results of `f` for the first `count` addresses. -/
def tabulate (count : Nat) (f : Nat → Checked σ) : Checked (Array σ) :=
  loop 0 count (fun i out => do
    let x ← f i
    return out.push x) #[]

/-- The buffers before address `i` and from there on. -/
def splitAt (b : Array σ) (i : Nat) : Checked (Array σ × Array σ) :=
  if i ≤ b.size then return (b.extract 0 i, b.extract i b.size) else .error (.outOfRange i b.size)

/-- The buffers at `p` and `q` replaced by what `f` and `g` make of the two, the second one in the second part. -/
def updatePair (b : Array σ) (p q : Nat) (f g : σ → σ → σ) : Checked (Array σ) := do
  let parts ← splitAt b q
  let x ← read parts.1 p
  let y ← read parts.2 0
  let left ← write parts.1 p (f x y)
  let right ← write parts.2 0 (g x y)
  return left ++ right

variable [OfNat α 0] [OfNat α 1] [OfNat α 2] [Add α] [Sub α] [Mul α] [Div α] [Neg α] [BEq α] [LT α]
  [DecidableLT α] [LE α] [DecidableLE α] [Spectral α]

/-- The columns of `height` rows of `width` values, divided by `scale`. -/
def scaledColumns (height width : Nat) (a : Array α) (scale : α) : Checked (Array (Array α)) :=
  tabulate width fun j => tabulate height fun i => do
    let x ← read a (i * width + j)
    divide x scale

def normSquared (v : Array α) : α := v.foldl (fun sum x => sum + x * x) 0

def dot (u v : Array α) : α := (Array.zipWith (· * ·) u v).foldl (· + ·) 0

/-- The cosine and the sine for two columns whose product `gamma` compares different from zero. -/
def angle (alpha beta gamma : α) : Checked (α × α) :=
  if gamma == 0 then .error .noAngle else return Grid.rotation alpha beta gamma

/-- Columns `p` and `q` rotated unless they count as orthogonal, and whether they were. -/
def rotatePair (columns : Array (Array α)) (p q : Nat) : Checked (Array (Array α) × Bool) := do
  let first ← read columns p
  let second ← read columns q
  let gamma := dot first second
  if Grid.areOrthogonal (normSquared first) (normSquared second) gamma then return (columns, false)
  else
    let rotation ← angle (normSquared first) (normSquared second) gamma
    let rotated ← updatePair columns p q (Array.zipWith fun x y => rotation.1 * x - rotation.2 * y)
      (Array.zipWith fun x y => rotation.2 * x + rotation.1 * y)
    return (rotated, true)

/-- One pass over all pairs of the first `count` columns, and whether a pair was rotated. -/
def sweep (count : Nat) (columns : Array (Array α)) : Checked (Array (Array α) × Bool) :=
  loop 0 count (fun p => loop (p + 1) count fun q s => do
    let rotated ← rotatePair s.1 p q
    return (rotated.1, s.2 || rotated.2)) (columns, false)

/-- At most `limit` passes, ended by the first one that rotates nothing. -/
def sweeps (count : Nat) : (limit : Nat) → Array (Array α) → Checked (Array (Array α))
  | 0, columns => return columns
  | limit + 1, columns => do
    let swept ← sweep count columns
    if swept.2 then sweeps count limit swept.1 else return swept.1

/-- The singular values of `height` rows of `width` values, relative to the largest magnitude. -/
def columnValues (height width : Nat) (a : Array α) : Checked (List α) :=
  let scale := a.foldl (fun acc x => Grid.larger acc (magnitude x)) 0
  if scale == 0 then return List.replicate width 0
  else do
    let columns ← scaledColumns height width a scale
    let swept ← sweeps width Grid.sweepLimit columns
    return (swept.toList.map fun v => Spectral.sqrt (normSquared v)).mergeSort fun a b => b ≤ a

/-- The singular values of `rows` rows of `columns` values, taken from the transpose if there are more columns. -/
def singularValues (rows columns : Nat) (a : Array α) : Checked (List α) :=
  if columns ≤ rows then columnValues rows columns a
  else do
    let source ← transpose rows columns a
    columnValues columns rows source

end Programs

/-! ### Columns -/

section Columns

variable {α σ : Type} {n m : Nat}

theorem tabulate_eq {count : Nat} {f : Nat → Checked σ} {v : Vector σ count}
    (hf : ∀ i : Fin count, f i = .ok (v.get i)) : tabulate count f = .ok v.toArray := by
  have hfirst : v.toArray.extract 0 0 = #[] := Array.extract_zero
  have hlast : v.toArray.extract 0 count = v.toArray := Array.extract_eq_self_of_le v.size_toArray.le
  rw [tabulate, ← hfirst]
  conv_rhs => rw [← hlast]
  refine loop_eq (fun i => v.toArray.extract 0 i) (Nat.zero_le count) fun i _ hi => ?_
  rw [hf ⟨i, hi⟩, ok_bind]
  refine congrArg Except.ok ?_
  apply Array.ext
  · simp [Nat.min_eq_left hi.le, Nat.min_eq_left (Nat.succ_le_of_lt hi)]
  · intro k hk _
    rw [Array.getElem_push]
    split
    · simp
    next h =>
      have hki : k = i := by
        simp only [Array.size_push, Array.size_extract, Vector.size_toArray] at hk h
        omega
      subst hki
      simp [Grid.get_eq_getElem]

theorem read_buffers (columns : Grid α m n) (p : Fin m) : read columns.buffers p = .ok (columns.get p).toArray := by
  rw [read_of_lt (by rw [Grid.size_buffers]; exact p.isLt), Grid.getElem_buffers]

/-- The two parts put together again are the whole with both buffers replaced. -/
theorem updatePair_eq {b : Array σ} {p q : Nat} (hpq : p < q) (hq : q < b.size) (f g : σ → σ → σ) :
    updatePair b p q f g =
      .ok ((b.set p (f b[p] b[q]) (hpq.trans hq)).set q (g b[p] b[q]) (by rwa [Array.size_set])) := by
  have hsplit : splitAt b q = .ok (b.extract 0 q, b.extract q b.size) := if_pos hq.le
  have hleft : p < (b.extract 0 q).size := by
    rw [Array.size_extract]
    omega
  have hright : 0 < (b.extract q b.size).size := by
    rw [Array.size_extract]
    omega
  have hx : (b.extract 0 q)[p] = b[p] := by simp only [Array.getElem_extract, Nat.zero_add]
  have hy : (b.extract q b.size)[0] = b[q] := Array.getElem_extract _
  rw [updatePair, hsplit, ok_bind, read_of_lt hleft, ok_bind, read_of_lt hright, ok_bind, write_of_lt hleft, ok_bind,
    write_of_lt hright, ok_bind, hx, hy]
  refine congrArg Except.ok (Array.ext ?_ fun i _ _ => ?_)
  · simp
    omega
  · grind

theorem scaledColumns_flat [OfNat α 0] [Div α] [BEq α] (g : Grid α n m) {scale : α} (hscale : ¬(scale == 0) = true) :
    scaledColumns n m g.flat scale =
      .ok (Grid.buffers (Vector.map (fun v => Vector.map (· / scale) v) g.transpose)) := by
  refine tabulate_eq fun j => ?_
  have hcolumn : (Vector.map Vector.toArray (Vector.map (fun v => Vector.map (· / scale) v) g.transpose)).get j =
      ((g.transpose.get j).map (· / scale)).toArray := by
    simp only [Grid.get_eq_getElem, Vector.getElem_map]
  rw [hcolumn]
  refine tabulate_eq fun i => ?_
  have hentry : ((g.transpose.get j).map (· / scale)).get i = g.entry i j / scale := by
    rw [Grid.get_eq_getElem, Vector.getElem_map, ← Grid.entry_transpose]
    rfl
  rw [read_flat, ok_bind, divide, if_neg hscale, hentry]

variable [OfNat α 0] [OfNat α 1] [OfNat α 2] [Add α] [Sub α] [Mul α] [Div α] [Neg α] [BEq α] [LT α]
  [DecidableLT α] [LE α] [DecidableLE α] [Spectral α]

theorem angle_of_not_areOrthogonal {alpha beta gamma : α} (h : ¬Grid.areOrthogonal alpha beta gamma = true) :
    angle alpha beta gamma = .ok (Grid.rotation alpha beta gamma) :=
  if_neg fun hzero => h (Bool.or_eq_true_iff.2 (.inl hzero))

theorem rotatePair_buffers (columns : Grid α m n) {p q : Fin m} (hpq : p < q) :
    rotatePair columns.buffers p q =
      .ok ((Grid.rotatePair columns p q).1.buffers, (Grid.rotatePair columns p q).2) := by
  have halpha : normSquared (columns.get p).toArray = Grid.normSquared (columns.get p) := rfl
  have hbeta : normSquared (columns.get q).toArray = Grid.normSquared (columns.get q) := rfl
  have hgamma : dot (columns.get p).toArray (columns.get q).toArray = Grid.dot (columns.get p) (columns.get q) := by
    rw [dot, ← Vector.toArray_zipWith]
    rfl
  simp only [rotatePair, Grid.rotatePair, read_buffers, ok_bind, halpha, hbeta, hgamma]
  split
  · rfl
  · rename_i hapart
    have hq : q.val < columns.buffers.size := by
      rw [Grid.size_buffers]
      exact q.isLt
    rw [angle_of_not_areOrthogonal hapart, ok_bind, updatePair_eq hpq hq, ok_bind]
    simp only [Grid.getElem_buffers, ← Vector.toArray_zipWith, Grid.set_buffers]
    rfl

theorem sweep_buffers (columns : Grid α m n) :
    sweep m columns.buffers = .ok ((Grid.sweep columns).1.buffers, (Grid.sweep columns).2) := by
  have hpairs : Grid.sweep columns = (List.finRange m).foldl
      (fun state p => ((List.finRange m).filter (p < ·)).foldl
        (fun state q => ((Grid.rotatePair state.1 p q).1, state.2 || (Grid.rotatePair state.1 p q).2)) state)
      (columns, false) := by
    rw [Grid.sweep, Grid.pairs, List.foldl_flatMap]
    simp only [List.foldl_map]
  rw [hpairs]
  refine loop_foldl (fun state : Grid α m n × Bool => (state.1.buffers, state.2)) (map_val_finRange m)
    (fun p _ state => ?_) (columns, false)
  refine loop_foldl (fun state : Grid α m n × Bool => (state.1.buffers, state.2)) (map_val_filter_lt p)
    (fun q hq state => ?_) state
  have hpq : p < q := of_decide_eq_true (List.mem_filter.1 hq).2
  rw [rotatePair_buffers _ hpq, ok_bind]
  rfl

theorem sweeps_buffers (limit : Nat) (columns : Grid α m n) :
    sweeps m limit columns.buffers = .ok (Grid.sweeps limit columns).buffers := by
  induction limit generalizing columns with
  | zero => rfl
  | succ limit ih =>
      rw [sweeps, sweep_buffers, ok_bind, Grid.sweeps]
      dsimp only
      split
      · exact ih _
      · rfl

theorem columnValues_flat (g : Grid α n m) (hlargest : g.largest = g.transpose.largest) :
    columnValues n m g.flat = .ok g.transpose.singularValues := by
  have hscale : g.flat.foldl (fun acc x => Grid.larger acc (magnitude x)) 0 = g.transpose.largest :=
    (Grid.foldl_flat g 0).trans hlargest
  simp only [columnValues, hscale, Grid.singularValues]
  split
  · rfl
  · rename_i hzero
    rw [scaledColumns_flat g hzero, ok_bind, sweeps_buffers, ok_bind, Grid.buffers, Vector.toArray_map,
      Array.toList_map, List.map_map]
    rfl

end Columns

theorem singularValues_flat {n m : Nat} (g : Grid Float n m) :
    singularValues n m g.flat = .ok (if m ≤ n then g.transpose.singularValues else g.singularValues) := by
  unfold singularValues
  split
  · exact columnValues_flat g g.largest_transpose.symm
  · have hvalues := columnValues_flat g.transpose g.transpose.largest_transpose.symm
    rw [Grid.transpose_transpose] at hvalues
    rw [transpose_flat, ok_bind, hvalues]

end Checked

end DeskCalc
