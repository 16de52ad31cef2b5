/-!
Grids: rows of equally many entries, of a size known to the type. A grid is tabulated once, so that
reading an entry never computes anything again.
-/

namespace DeskCalc

/-- `n` rows of `m` entries each. -/
abbrev Grid (α : Type) (n m : Nat) := Vector (Vector α m) n

namespace Grid

variable {α β γ : Type} {n m : Nat}

theorem get_eq_getElem (v : Vector α n) (i : Fin n) : v.get i = v[i.val] := rfl

/-- The entry in row `i` and column `j`. -/
def entry (g : Grid α n m) (i : Fin n) (j : Fin m) : α := (g.get i).get j

@[ext] theorem ext {g h : Grid α n m} (heq : ∀ i j, g.entry i j = h.entry i j) : g = h := by
  apply Vector.ext
  intro i hi
  apply Vector.ext
  intro j hj
  exact heq ⟨i, hi⟩ ⟨j, hj⟩

/-- The grid whose entry in row `i` and column `j` is `f i j`. -/
def ofFn (f : Fin n → Fin m → α) : Grid α n m := Vector.ofFn fun i => Vector.ofFn (f i)

@[simp] theorem entry_ofFn (f : Fin n → Fin m → α) (i : Fin n) (j : Fin m) :
    (ofFn f).entry i j = f i j := by
  simp [ofFn, entry, get_eq_getElem]

/-- Rows and columns exchanged. -/
def transpose (g : Grid α n m) : Grid α m n := ofFn fun j i => g.entry i j

@[simp] theorem entry_transpose (g : Grid α n m) (j : Fin m) (i : Fin n) :
    g.transpose.entry j i = g.entry i j := entry_ofFn _ j i

/-- Two grids combined entry by entry. -/
def zipWith (f : α → β → γ) (g : Grid α n m) (h : Grid β n m) : Grid γ n m :=
  Vector.zipWith (Vector.zipWith f) g h

@[simp] theorem entry_zipWith (f : α → β → γ) (g : Grid α n m) (h : Grid β n m) (i : Fin n)
    (j : Fin m) : (zipWith f g h).entry i j = f (g.entry i j) (h.entry i j) := by
  simp [zipWith, entry, get_eq_getElem]

/-- Rows `i` and `j` exchanged. -/
def swapRows (g : Grid α n m) (i j : Fin n) : Grid α n m := g.swap i j i.isLt j.isLt

theorem entry_swapRows (g : Grid α n m) (i j r : Fin n) (c : Fin m) :
    (g.swapRows i j).entry r c =
      if r = i then g.entry j c else if r = j then g.entry i c else g.entry r c := by
  simp only [swapRows, entry, get_eq_getElem, Vector.getElem_swap, Fin.ext_iff]
  split
  · rfl
  · split <;> rfl

/-- Row `i` replaced by `row`. -/
def setRow (g : Grid α n m) (i : Fin n) (row : Vector α m) : Grid α n m := g.set i row i.isLt

theorem get_setRow (g : Grid α n m) (i r : Fin n) (row : Vector α m) :
    (g.setRow i row).get r = if r = i then row else g.get r := by
  simp only [setRow, get_eq_getElem, Vector.getElem_set, Fin.ext_iff, eq_comm]

def toRows (g : Grid α n m) : List (List α) := g.toList.map Vector.toList

theorem forall_mem_toRows_iff {g : Grid α n m} {p : α → Prop} :
    (∀ row ∈ g.toRows, ∀ x ∈ row, p x) ↔ ∀ i j, p (g.entry i j) := by
  simp only [toRows, List.forall_mem_map, Vector.mem_toList_iff, Vector.mem_iff_getElem]
  constructor
  · intro h i j
    exact h _ ⟨i, i.isLt, rfl⟩ _ ⟨j, j.isLt, rfl⟩
  · rintro h _ ⟨i, hi, rfl⟩ _ ⟨j, hj, rfl⟩
    exact h ⟨i, hi⟩ ⟨j, hj⟩

/-- The grid with the given rows, which all have `m` entries. -/
def ofRows (rows : List (List α)) (h : ∀ row ∈ rows, row.length = m) : Grid α rows.length m :=
  ⟨(rows.attach.map fun row => (⟨row.1.toArray, h row.1 row.2⟩ : Vector α m)).toArray, by simp⟩

theorem toRows_ofRows (rows : List (List α)) (h : ∀ row ∈ rows, row.length = m) :
    (ofRows rows h).toRows = rows := by
  simp [toRows, ofRows, Vector.toList, Function.comp_def]

/-- A grid of the same size under another name of that size. -/
def resize {n' m' : Nat} (hn : n = n') (hm : m = m') (g : Grid α n m) : Grid α n' m' :=
  hn ▸ hm ▸ g

@[simp] theorem resize_rfl (g : Grid α n m) : resize rfl rfl g = g := rfl

end Grid

end DeskCalc
