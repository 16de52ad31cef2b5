import DeskCalc.Matrix.Arithmetic
import Mathlib.Data.List.FinRange

/-!
Matrices in buffers. Row after row the entries of a grid make up one buffer, in which entry `(i, j)` of `m` columns
stands at `i * m + j`. Programs over buffers are loops over such addresses. Nothing in a buffer keeps an address in
range, or a divisor from being zero; so a program is checked: it ends with a misstep at the first address out of range
and at the first division by zero. That a program ends with the buffer of a grid says at once that it makes no misstep
and that it confuses no two addresses. Loops are followed state by state: no law of arithmetic is used.
-/

namespace DeskCalc

/-- What a program over buffers must not do. -/
inductive Misstep
  | outOfRange (index size : Nat)
  | zeroDivisor
  /-- The angle of a rotation is asked for two columns with product zero. -/
  | noAngle
deriving DecidableEq, Repr

/-- The result of a program that stops at its first misstep. -/
abbrev Checked := Except Misstep

namespace Checked

variable {α σ τ : Type}

@[simp] theorem ok_bind (s : σ) (f : σ → Checked τ) : (Except.ok s : Checked σ) >>= f = f s := rfl

def read (b : Array α) (i : Nat) : Checked α :=
  if h : i < b.size then .ok b[i] else .error (.outOfRange i b.size)

def write (b : Array α) (i : Nat) (x : α) : Checked (Array α) :=
  if h : i < b.size then .ok (b.set i x h) else .error (.outOfRange i b.size)

theorem read_of_lt {b : Array α} {i : Nat} (h : i < b.size) : read b i = .ok b[i] := dif_pos h

theorem write_of_lt {b : Array α} {i : Nat} (h : i < b.size) (x : α) : write b i x = .ok (b.set i x h) := dif_pos h

/-- The values at two addresses exchanged. -/
def swap (b : Array α) (i j : Nat) : Checked (Array α) := do
  let x ← read b i
  let y ← read b j
  write (← write b i y) j x

/-- The values from address `start` to before address `stop`. -/
def slice (b : Array α) (start stop : Nat) : Checked (Array α) :=
  if start ≤ stop ∧ stop ≤ b.size then .ok (b.extract start stop) else .error (.outOfRange stop b.size)

/-- A quotient whose divisor compares different from zero. -/
def divide [OfNat α 0] [BEq α] [Div α] (x y : α) : Checked α :=
  if y == 0 then .error .zeroDivisor else .ok (x / y)

/-- `body` for each counter from `start` to before `stop`. -/
def loop (start stop : Nat) (body : Nat → σ → Checked σ) (s : σ) : Checked σ :=
  (List.range' start (stop - start)).foldlM (fun s i => body i s) s

section Loop

variable {body : Nat → σ → Checked σ} {start stop n : Nat}

/-- A loop whose states are known one by one. -/
theorem loop_eq (state : Nat → σ) (h : start ≤ stop)
    (hbody : ∀ i, start ≤ i → i < stop → body i (state i) = .ok (state (i + 1))) :
    loop start stop body (state start) = .ok (state stop) := by
  obtain ⟨count, rfl⟩ := Nat.exists_eq_add_of_le h
  rw [loop, Nat.add_sub_cancel_left]
  induction count generalizing start with
  | zero => rfl
  | succ count ih =>
      rw [List.range'_succ, List.foldlM_cons, hbody start le_rfl (by omega)]
      have hnext : (List.range' (start + 1) count).foldlM (fun s i => body i s) (state (start + 1)) =
          .ok (state (start + 1 + count)) :=
        ih (by omega) fun i hi hlt => hbody i (by omega) (by omega)
      rwa [Nat.add_right_comm] at hnext

/-- A loop that computes a fold over rows or columns. -/
theorem loop_foldl (view : τ → σ) {step : τ → Fin n → τ} {counters : List (Fin n)}
    (hcounters : counters.map Fin.val = List.range' start (stop - start))
    (hbody : ∀ i ∈ counters, ∀ t, body i (view t) = .ok (view (step t i))) (t : τ) :
    loop start stop body (view t) = .ok (view (counters.foldl step t)) := by
  rw [loop, ← hcounters, List.foldlM_map]
  clear hcounters
  induction counters generalizing t with
  | nil => rfl
  | cons i rest ih =>
      rw [List.foldlM_cons, hbody i List.mem_cons_self]
      exact ih (fun j hj => hbody j (List.mem_cons_of_mem i hj)) _

theorem map_val_finRange (n : Nat) : (List.finRange n).map Fin.val = List.range' 0 (n - 0) := by
  rw [List.map_coe_finRange_eq_range, List.range_eq_range', Nat.sub_zero]

/-- The counters after `k`. -/
theorem map_val_filter_lt (k : Fin n) :
    ((List.finRange n).filter (k < ·)).map Fin.val = List.range' (k + 1) (n - (k + 1)) := by
  have hfilter : ((List.finRange n).filter (k < ·)).map Fin.val =
      ((List.finRange n).map Fin.val).filter (k.val < ·) := by
    rw [List.filter_map]
    rfl
  have hsplit : List.range' 0 (n - 0) = List.range' 0 (k + 1) ++ List.range' (k + 1) (n - (k + 1)) := by
    have happend := List.range'_append_1 (s := 0) (m := k.val + 1) (n := n - (k + 1))
    rw [Nat.zero_add, Nat.add_sub_cancel' k.isLt] at happend
    exact happend.symm
  rw [hfilter, map_val_finRange, hsplit, List.filter_append, List.filter_eq_nil_iff.2, List.nil_append,
    List.filter_eq_self.2]
  · intro i hi
    have hmem := List.mem_range'_1.1 hi
    exact decide_eq_true (by omega)
  · intro i hi
    have hmem := List.mem_range'_1.1 hi
    simp only [decide_eq_true_eq]
    omega

end Loop

end Checked

namespace Grid

variable {α : Type} {n m : Nat}

/-- The entries, row after row. -/
def flat (g : Grid α n m) : Array α := g.flatten.toArray

@[simp] theorem size_flat (g : Grid α n m) : g.flat.size = n * m := g.flatten.size_toArray

/-- A row ends in the buffer. -/
theorem row_end_le (i : Fin n) (m : Nat) : i.val * m + m ≤ n * m := by
  rw [← Nat.succ_mul]
  exact Nat.mul_le_mul_right m i.isLt

theorem address_lt (i : Fin n) (j : Fin m) : i.val * m + j < n * m :=
  calc i.val * m + j < i.val * m + m := Nat.add_lt_add_left j.isLt _
    _ ≤ n * m := row_end_le i m

theorem address_lt_size (g : Grid α n m) (i : Fin n) (j : Fin m) : i.val * m + j < g.flat.size :=
  Nat.lt_of_lt_of_eq (address_lt i j) g.size_flat.symm

/-- No two entries share an address. -/
theorem eq_address_iff {q i : Nat} (j : Fin m) : q = i * m + j ↔ q / m = i ∧ q % m = j := by
  constructor
  · rintro rfl
    have hm : 0 < m := Nat.zero_lt_of_lt j.isLt
    constructor
    · rw [Nat.mul_comm, Nat.mul_add_div hm, Nat.div_eq_of_lt j.isLt, Nat.add_zero]
    · rw [Nat.mul_comm, Nat.mul_add_mod, Nat.mod_eq_of_lt j.isLt]
  · rintro ⟨rfl, hj⟩
    rw [← hj, Nat.mul_comm, Nat.div_add_mod]

theorem div_lt_of_address {q : Nat} (hq : q < n * m) : q / m < n :=
  Nat.div_lt_of_lt_mul (Nat.lt_of_lt_of_eq hq (Nat.mul_comm n m))

theorem mod_lt_of_address {q : Nat} (hq : q < n * m) : q % m < m :=
  Nat.mod_lt q (Nat.pos_of_lt_mul_left hq)

theorem getElem_flat (g : Grid α n m) {q : Nat} (hq : q < g.flat.size) :
    g.flat[q] = g.entry ⟨q / m, div_lt_of_address (g.size_flat ▸ hq)⟩ ⟨q % m, mod_lt_of_address (g.size_flat ▸ hq)⟩ :=
  Vector.getElem_flatten (g.size_flat ▸ hq)

theorem getElem_flat_address (g : Grid α n m) (i : Fin n) (j : Fin m)
    (h : i.val * m + j < g.flat.size) : g.flat[i.val * m + j] = g.entry i j := by
  obtain ⟨hi, hj⟩ := (eq_address_iff j).1 (rfl : i.val * m + j = _)
  rw [getElem_flat]
  congr 1
  · exact Fin.ext hi
  · exact Fin.ext hj

theorem toList_flat (g : Grid α n m) : g.flat.toList = g.toRows.flatten := by
  simp only [flat, Vector.flatten, Array.toList_flatten, Array.toList_map, List.map_map]
  rfl

theorem flat_zipWith (f : α → α → α) (g h : Grid α n m) : (zipWith f g h).flat = Array.zipWith f g.flat h.flat := by
  apply Array.ext
  · simp
  · intro q _ _
    rw [getElem_flat, entry_zipWith, Array.getElem_zipWith, getElem_flat, getElem_flat]

/-- A part of a row is a part of the buffer. -/
theorem extract_flat (g : Grid α n m) (i : Fin n) (low : Nat) {high : Nat} (hhigh : high ≤ m) :
    g.flat.extract (i * m + low) (i * m + high) = (g.get i).toArray.extract low high := by
  have hrow := row_end_le i m
  apply Array.ext
  · simp only [Array.size_extract, size_flat, Vector.size_toArray]
    omega
  · intro q _ hq
    have hlt : low + q < m := by
      simp only [Array.size_extract, Vector.size_toArray] at hq
      omega
    simp only [Array.getElem_extract, Nat.add_assoc]
    exact getElem_flat_address g i ⟨low + q, hlt⟩ _

/-- Every buffer of the right size is that of a grid. -/
theorem exists_flat_eq {b : Array α} (h : b.size = n * m) : ∃ g : Grid α n m, g.flat = b := by
  have hlt (i : Fin n) (j : Fin m) : i.val * m + j < b.size := h ▸ address_lt i j
  refine ⟨ofFn fun i j => have := hlt i j; b[i.val * m + j], ?_⟩
  apply Array.ext
  · rw [size_flat, h]
  · intro q hq _
    rw [getElem_flat, entry_ofFn]
    simp only [Nat.div_add_mod']

theorem ext_get {g h : Grid α n m} (heq : ∀ i, g.get i = h.get i) : g = h :=
  ext fun i j => congrArg (·.get j) (heq i)

/-- The grid with the entry in row `i` and column `j` replaced by `x`. -/
def setEntry (g : Grid α n m) (i : Fin n) (j : Fin m) (x : α) : Grid α n m :=
  ofFn fun r c => if r = i ∧ c = j then x else g.entry r c

@[simp] theorem entry_setEntry (g : Grid α n m) (i r : Fin n) (j c : Fin m) (x : α) :
    (g.setEntry i j x).entry r c = if r = i ∧ c = j then x else g.entry r c := entry_ofFn _ r c

/-- The grid with column `j` replaced by the values of `f`. -/
def setColumn (g : Grid α n m) (j : Fin m) (f : Fin n → α) : Grid α n m :=
  ofFn fun r c => if c = j then f r else g.entry r c

@[simp] theorem entry_setColumn (g : Grid α n m) (j : Fin m) (f : Fin n → α) (r : Fin n) (c : Fin m) :
    (g.setColumn j f).entry r c = if c = j then f r else g.entry r c := entry_ofFn _ r c

@[simp] theorem entry_setRow (g : Grid α n m) (i r : Fin n) (row : Vector α m) (c : Fin m) :
    (g.setRow i row).entry r c = if r = i then row.get c else g.entry r c := by
  rw [entry, get_setRow]
  split
  · rfl
  · rfl

end Grid

namespace Checked

open Grid (flat)

section Access

variable {α : Type} {n m : Nat} (g : Grid α n m) (i : Fin n) (j : Fin m)

@[simp] theorem read_flat : read g.flat (i * m + j) = .ok (g.entry i j) := by
  rw [read_of_lt (g.address_lt_size i j), Grid.getElem_flat_address]

@[simp] theorem write_flat (x : α) : write g.flat (i * m + j) x = .ok (g.setEntry i j x).flat := by
  rw [write_of_lt (g.address_lt_size i j)]
  congr 1
  apply Array.ext
  · rw [Array.size_set, Grid.size_flat, Grid.size_flat]
  · intro q hq _
    rw [Array.getElem_set, Grid.getElem_flat, Grid.getElem_flat, Grid.entry_setEntry]
    refine if_congr ?_ rfl rfl
    rw [eq_comm, Grid.eq_address_iff, Fin.ext_iff, Fin.ext_iff]

/-- A part of a row is a slice in range. -/
theorem slice_flat {low high : Nat} (hlow : low ≤ high) (hhigh : high ≤ m) :
    slice g.flat (i * m + low) (i * m + high) = .ok ((g.get i).toArray.extract low high) := by
  have hrow := Grid.row_end_le i m
  rw [slice, if_pos (by rw [Grid.size_flat]; omega), Grid.extract_flat g i low hhigh]

theorem read_toArray (v : Vector α n) : read v.toArray i = .ok (v.get i) := by
  rw [read_of_lt (by rw [v.size_toArray]; exact i.isLt)]
  rfl

end Access

section Rows

variable {α : Type} {n m start stop : Nat} {body : Nat → Array α → Checked (Array α)}

/-- A loop that replaces the entries of a grid in the order of their ranks, those of one rank in one round. -/
theorem loop_entries {new old : Grid α n m} (rank : Fin n → Fin m → Nat) (hstart : start ≤ stop)
    (hbefore : ∀ r c, rank r c < start → new.entry r c = old.entry r c)
    (hafter : ∀ r c, stop ≤ rank r c → new.entry r c = old.entry r c)
    (hbody : ∀ (k : Nat) (g : Grid α n m), start ≤ k → k < stop →
      (∀ r c, g.entry r c = if rank r c < k then new.entry r c else old.entry r c) →
        ∃ h : Grid α n m, body k g.flat = .ok h.flat ∧
          ∀ r c, h.entry r c = if rank r c = k then new.entry r c else g.entry r c) :
    loop start stop body old.flat = .ok new.flat := by
  let state (k : Nat) : Grid α n m := Grid.ofFn fun r c => if rank r c < k then new.entry r c else old.entry r c
  have hentry (k : Nat) (r : Fin n) (c : Fin m) :
      (state k).entry r c = if rank r c < k then new.entry r c else old.entry r c := Grid.entry_ofFn _ r c
  have hfirst : state start = old := by
    ext r c
    rw [hentry, ite_eq_right_iff]
    exact hbefore r c
  have hlast : state stop = new := by
    ext r c
    rw [hentry, ite_eq_left_iff]
    exact fun h => (hafter r c (Nat.not_lt.1 h)).symm
  rw [← hfirst, ← hlast]
  refine loop_eq (fun k => (state k).flat) hstart fun k hk hlt => ?_
  obtain ⟨h, hrun, hnew⟩ := hbody k (state k) hk hlt (hentry k)
  have hnext : h = state (k + 1) := by
    ext r c
    rw [hnew, hentry, hentry]
    split
    next hrank => rw [if_pos (hrank ▸ Nat.lt_succ_self _)]
    next hrank => exact if_congr (by omega) rfl rfl
  rw [hrun, hnext]

/-- A loop that replaces one row after the other. -/
theorem loop_rows {new old : Grid α n m} (hstart : start ≤ n)
    (hsame : ∀ r : Fin n, r.val < start → new.get r = old.get r)
    (hbody : ∀ (i : Fin n) (g : Grid α n m), start ≤ i.val →
      (∀ r, g.get r = if r < i then new.get r else old.get r) →
        body i g.flat = .ok (g.setRow i (new.get i)).flat) :
    loop start n body old.flat = .ok new.flat := by
  refine loop_entries (fun r _ => r) hstart (fun r c h => congrArg (·.get c) (hsame r h))
    (fun r _ h => absurd r.isLt (Nat.not_lt.2 h)) fun k g hk hlt hg => ?_
  have hrows (r : Fin n) : g.get r = if r < ⟨k, hlt⟩ then new.get r else old.get r := by
    apply Vector.ext
    intro c hc
    exact (hg r ⟨c, hc⟩).trans (apply_ite (fun row : Vector α m => row.get ⟨c, hc⟩) _ _ _).symm
  refine ⟨_, hbody ⟨k, hlt⟩ g hk hrows, fun r c => ?_⟩
  rw [Grid.entry_setRow]
  by_cases hr : r = ⟨k, hlt⟩
  · rw [if_pos hr, if_pos (congrArg Fin.val hr), hr]
    rfl
  · rw [if_neg hr, if_neg fun h => hr (Fin.ext h)]

/-- A loop that replaces one column after the other. -/
theorem loop_columns {new old : Grid α n m}
    (hbody : ∀ (j : Fin m) (g : Grid α n m),
      (∀ r c, g.entry r c = if c < j then new.entry r c else old.entry r c) →
        body j g.flat = .ok (g.setColumn j (new.entry · j)).flat) :
    loop 0 m body old.flat = .ok new.flat := by
  refine loop_entries (fun _ c => c) (Nat.zero_le m) (fun _ _ h => absurd h (Nat.not_lt_zero _))
    (fun _ c h => absurd c.isLt (Nat.not_lt.2 h)) fun k g _ hlt hg => ?_
  refine ⟨_, hbody ⟨k, hlt⟩ g hg, fun r c => ?_⟩
  rw [Grid.entry_setColumn]
  by_cases hc : c = ⟨k, hlt⟩
  · rw [if_pos hc, if_pos (congrArg Fin.val hc), hc]
  · rw [if_neg hc, if_neg fun h => hc (Fin.ext h)]

/-- A loop that replaces one entry of a row after the other. -/
theorem loop_setRow {g : Grid α n m} {i : Fin n} {row : Vector α m} (hstart : start ≤ stop) (hstop : stop ≤ m)
    (hsame : ∀ c : Fin m, c.val < start ∨ stop ≤ c.val → row.get c = g.entry i c)
    (hbody : ∀ (j : Fin m) (h : Grid α n m), start ≤ j.val → j.val < stop →
      (∀ r, r ≠ i → h.get r = g.get r) → h.entry i j = g.entry i j →
        body j h.flat = .ok (h.setEntry i j (row.get j)).flat) :
    loop start stop body g.flat = .ok (g.setRow i row).flat := by
  have hnew (r : Fin n) (c : Fin m) (h : c.val < start ∨ stop ≤ c.val) :
      (g.setRow i row).entry r c = g.entry r c := by
    rw [Grid.entry_setRow, ite_eq_right_iff]
    rintro rfl
    exact hsame c h
  refine loop_entries (fun _ c => c) hstart (fun r c h => hnew r c (.inl h)) (fun r c h => hnew r c (.inr h))
    fun k h hk hbelow hentry => ?_
  have hlt : k < m := hbelow.trans_le hstop
  have hothers (r : Fin n) (hr : r ≠ i) : h.get r = g.get r := by
    apply Vector.ext
    intro c hc
    have hsplit := hentry r ⟨c, hc⟩
    rwa [Grid.entry_setRow, if_neg hr, ite_self] at hsplit
  have hhere : h.entry i ⟨k, hlt⟩ = g.entry i ⟨k, hlt⟩ := by rw [hentry, if_neg (Nat.lt_irrefl k)]
  refine ⟨_, hbody ⟨k, hlt⟩ h hk hbelow hothers hhere, fun r c => ?_⟩
  rw [Grid.entry_setEntry, Grid.entry_setRow]
  by_cases hr : r = i
  · by_cases hc : c = ⟨k, hlt⟩
    · rw [if_pos ⟨hr, hc⟩, if_pos (congrArg Fin.val hc), if_pos hr, hc]
    · rw [if_neg fun hrc => hc hrc.2, if_neg fun h => hc (Fin.ext h)]
  · -- the other rows are the same in both grids
    have hrow : h.entry r c = g.entry r c := congrArg (·.get c) (hothers r hr)
    rw [if_neg fun hrc => hr hrc.1, if_neg hr, hrow, ite_self]

/-- A loop that replaces one entry of a column after the other. -/
theorem loop_setColumn {g : Grid α n m} {j : Fin m} {f : Fin n → α}
    (hbody : ∀ (i : Fin n) (h : Grid α n m), body i h.flat = .ok (h.setEntry i j (f i)).flat) :
    loop 0 n body g.flat = .ok (g.setColumn j f).flat := by
  refine loop_entries (fun r _ => r) (Nat.zero_le n) (fun _ _ h => absurd h (Nat.not_lt_zero _))
    (fun r _ h => absurd r.isLt (Nat.not_lt.2 h)) fun k h _ hlt hentry => ?_
  refine ⟨_, hbody ⟨k, hlt⟩ h, fun r c => ?_⟩
  rw [Grid.entry_setEntry, Grid.entry_setColumn]
  by_cases hc : c = j
  · by_cases hr : r = ⟨k, hlt⟩
    · rw [if_pos ⟨hr, hc⟩, if_pos (congrArg Fin.val hr), if_pos hc, hr]
    · rw [if_neg fun hrc => hr hrc.1, if_neg fun h => hr (Fin.ext h)]
  · -- the other columns are the same in both grids
    have hcolumn : h.entry r c = g.entry r c := by rw [hentry, Grid.entry_setColumn, if_neg hc, ite_self]
    rw [if_neg fun hrc => hc hrc.2, if_neg hc, hcolumn, ite_self]

end Rows

/-! ### Products and transposes -/

section Arithmetic

variable {α : Type} [OfNat α 0] {n m k p : Nat}

/-- The product of `n` rows of `k` values and `k` rows of `p` values, one multiple of a row after the other. -/
def product [Add α] [Mul α] (n k p : Nat) (a b : Array α) : Checked (Array α) :=
  loop 0 n (fun i => loop 0 k fun t out => do
    let x ← read a (i * k + t)
    loop 0 p (fun j out => do
      let sum ← read out (i * p + j)
      let y ← read b (t * p + j)
      write out (i * p + j) (sum + x * y)) out) (Array.replicate (n * p) 0)

/-- The columns of `n` rows of `m` values as rows. -/
def transpose (n m : Nat) (a : Array α) : Checked (Array α) :=
  loop 0 n (fun i => loop 0 m fun j out => do
    let x ← read a (i * m + j)
    write out (j * n + i) x) (Array.replicate (n * m) 0)

omit [OfNat α 0] in
theorem replicate_eq_flat (n m : Nat) (x : α) :
    Array.replicate (n * m) x = (Grid.ofFn fun (_ : Fin n) (_ : Fin m) => x).flat := by
  apply Array.ext
  · rw [Array.size_replicate, Grid.size_flat]
  · intro q _ hq
    rw [Array.getElem_replicate, Grid.getElem_flat, Grid.entry_ofFn]

theorem product_flat [Add α] [Mul α] (g : Grid α n k) (h : Grid α k p) :
    product n k p g.flat h.flat = .ok (g.product h).flat := by
  rw [product, replicate_eq_flat]
  refine loop_rows (Nat.zero_le n) (fun _ hr => absurd hr (Nat.not_lt_zero _)) fun i out _ hout => ?_
  -- the sums so far are those of a row of the product
  have hzero : out.setRow i (Vector.replicate p 0) = out := by
    refine Grid.ext_get fun r => ?_
    rw [Grid.get_setRow]
    split
    next hr =>
      rw [hr, hout, if_neg (lt_irrefl i)]
      apply Vector.ext
      intro j hj
      simp only [Grid.ofFn, Grid.get_eq_getElem, Vector.getElem_ofFn, Vector.getElem_replicate]
    next => rfl
  have hrow : (g.product h).get i = Grid.combineRows (g.get i) h := by
    rw [Grid.product, Grid.get_eq_getElem, Vector.getElem_map]
    rfl
  rw [hrow, Grid.combineRows]
  conv_lhs => rw [← hzero]
  refine loop_foldl (fun sums => (out.setRow i sums).flat) (map_val_finRange k) (fun t _ sums => ?_) _
  have hset : out.setRow i (Vector.zipWith (fun sum x => sum + (g.get i).get t * x) sums (h.get t)) =
      (out.setRow i sums).setRow i (Vector.zipWith (fun sum x => sum + (g.get i).get t * x) sums (h.get t)) := by
    ext r c
    simp only [Grid.entry_setRow]
    split
    · rfl
    · rfl
  rw [read_flat, ok_bind, hset]
  refine loop_setRow (Nat.zero_le p) le_rfl (fun c hc => absurd c.isLt (by omega)) fun j out' _ _ _ hhere => ?_
  have hsum : out'.entry i j + g.entry i t * h.entry t j =
      (Vector.zipWith (fun sum x => sum + (g.get i).get t * x) sums (h.get t)).get j := by
    rw [hhere, Grid.entry_setRow, if_pos rfl]
    simp only [Grid.entry, Grid.get_eq_getElem, Vector.getElem_zipWith]
  rw [read_flat, ok_bind, read_flat, ok_bind, write_flat, hsum]

theorem transpose_flat (g : Grid α n m) : transpose n m g.flat = .ok g.transpose.flat := by
  rw [transpose, Nat.mul_comm, replicate_eq_flat]
  -- row `i` is written down column `i`
  refine loop_columns fun i out _ => loop_setColumn fun j out' => ?_
  rw [read_flat, ok_bind, write_flat, Grid.entry_transpose]

end Arithmetic

end Checked

end DeskCalc
