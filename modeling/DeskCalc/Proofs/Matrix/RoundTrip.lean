import DeskCalc.Proofs.Matrix.Layout

/-!
A written matrix and the one that is read from it. Each entry comes back as the double nearest to the number that it
was rounded to, and with its sign, so also a negative zero. Seventeen digits are enough for the entry itself.
-/

namespace DeskCalc

namespace Binary64

variable {count : Nat} {x y : Float}

/-- The double `y` is nearest to `x` rounded to `count` significant digits, and has the sign of `x`. -/
structure RoundsTo (count : Nat) (x y : Float) : Prop where
  isNegative_eq : isNegative y = isNegative x
  isNearest : ∃ r, IsSignificant count (value (ordinal x)) r ∧ IsNearest r (ordinal y)

theorem isNegative_shown (count : Nat) (x : Float) : isNegative (shown count x) = isNegative x := by
  have hle := (significant (ordinal x) count).ordinal_le_infinite
  rw [← Decimal.ordinal_toFloat] at hle
  cases hsign : isNegative x with
  | true => rw [shown, if_pos hsign, isNegative_neg hle, Decimal.isNegative_toFloat, Bool.not_false]
  | false => rw [shown, if_neg (by simp [hsign]), Decimal.isNegative_toFloat]

theorem ordinal_shown (count : Nat) (x : Float) :
    ordinal (shown count x) = (significant (ordinal x) count).ordinal := by
  have hle := (significant (ordinal x) count).ordinal_le_infinite
  rw [← Decimal.ordinal_toFloat] at hle ⊢
  unfold shown
  split
  · exact ordinal_neg hle
  · rfl

/-- What is read of a double is the double that it is rounded to, and no other. -/
theorem roundsTo_iff (hcount : count ≤ 17) : RoundsTo count x y ↔ y = shown count x := by
  have hsignificant := isSignificant_significant (ordinal x) hcount
  have hnearest := Decimal.isNearest_ordinal (significant (ordinal x) count)
  constructor
  · rintro ⟨hsign, r, hr, hy⟩
    rw [hr.unique hsignificant] at hy
    apply ext_ordinal
    · rw [isNegative_shown, hsign]
    · rw [ordinal_shown, hy.unique hnearest]
  · rintro rfl
    refine ⟨isNegative_shown count x, _, hsignificant, ?_⟩
    rw [ordinal_shown]
    exact hnearest

theorem shown_seventeen (hx : x.isFinite = true) : shown 17 x = x := by
  have hsignificant := isSignificant_significant (ordinal x) (Nat.le_refl 17)
  have hself : RoundsTo 17 x x := ⟨rfl, _, hsignificant, isNearest_of_isSignificant (isFinite_iff.1 hx) hsignificant⟩
  exact ((roundsTo_iff (Nat.le_refl 17)).1 hself).symm

end Binary64

theorem readNumber?_generalText {digits : Nat} (hdigits : 0 < digits) {x : Float} (h : IsReadable digits x) :
    readNumber? (generalText x digits).toList = some (Binary64.shown digits x) := by
  obtain ⟨hx, hshown⟩ := h
  rw [readNumber?, signedDouble?_generalText hdigits hx, Option.filter_some, isFinite_shown, if_pos hshown]

namespace Grid

variable {α β : Type} {n m : Nat}

theorem toRows_injective : Function.Injective (toRows : Grid α n m → List (List α)) := by
  intro g h heq
  exact Vector.toList_inj.1 (List.map_injective_iff.2 (fun _ _ => Vector.toList_inj.1) heq)

theorem toRows_ofFn_entry (f : α → β) (g : Grid α n m) :
    (ofFn fun i j => f (g.entry i j)).toRows = g.toRows.map (·.map f) := by
  have hmap : (ofFn fun i j => f (g.entry i j)) = g.map (Vector.map f) := by
    ext i j
    rw [entry_ofFn]
    simp [entry, get_eq_getElem]
  rw [hmap, toRows, toRows, Vector.toList_map, List.map_map, List.map_map]
  exact List.map_congr_left fun row _ => Vector.toList_map

end Grid

namespace DenseMatrix

variable {α : Type} {digits : Nat}

theorem toRows_injective : Function.Injective (toRows : DenseMatrix α → List (List α)) := by
  intro a b h
  have hshape := shape_eq_of_map_length (congrArg (List.map List.length) h)
  obtain ⟨n, m, g, hn, hm⟩ := a
  obtain ⟨n', m', g', hn', hm'⟩ := b
  obtain ⟨rfl, rfl⟩ : n = n' ∧ m = m' := by simpa [shape] using hshape
  obtain rfl : g = g' := Grid.toRows_injective h
  rfl

/-- The entries that are read from the text of a matrix. -/
def shownEntries (a : DenseMatrix Float) (digits : Nat) : Grid Float a.rows a.columns :=
  Grid.ofFn fun i j => Binary64.shown digits (a.entries.entry i j)

theorem read_text_of_isReadable (hdigits : 0 < digits) {a : DenseMatrix Float}
    (h : ∀ i j, IsReadable digits (a.entries.entry i j)) :
    read (a.text digits) = .ok { a with entries := a.shownEntries digits } := by
  have hreadable : ∀ row ∈ a.toRows, ∀ x ∈ row, IsReadable digits x := Grid.forall_mem_toRows_iff.2 h
  obtain ⟨b, hb⟩ := (exists_read_text_iff hdigits a).2 hreadable
  have hnumbers : b.toRows.map (·.map some) = (a.toRows.map (·.map (Binary64.shown digits))).map (·.map some) := by
    rw [map_some_toRows hb, numberLines_text hdigits]
    simp only [List.map_map, Function.comp_def]
    refine List.map_congr_left fun row hrow => List.map_congr_left fun x hx => ?_
    exact readNumber?_generalText hdigits (hreadable row hrow x hx)
  have hsome : Function.Injective fun row : List Float => row.map some :=
    List.map_injective_iff.2 (Option.some_injective Float)
  rw [hb]
  congr 1
  apply toRows_injective
  rw [List.map_injective_iff.2 hsome hnumbers]
  exact (Grid.toRows_ofFn_entry _ _).symm

/-- The text of a matrix of finite doubles is read as the matrix of the doubles that its entries are rounded to, if
these are finite, and with seventeen digits as the matrix itself. -/
theorem read_text_rounded (a : DenseMatrix Float) (hfinite : ∀ i j, (a.entries.entry i j).isFinite = true) :
    (∀ count, 1 ≤ count → count ≤ 17 → ∃ b : Grid Float a.rows a.columns,
      (∀ i j y, Binary64.RoundsTo count (a.entries.entry i j) y ↔ y = b.entry i j) ∧
      ((∀ i j, (b.entry i j).isFinite = true) → read (a.text count) = .ok { a with entries := b })) ∧
    read (a.text 17) = .ok a := by
  constructor
  · intro count hpos hcount
    refine ⟨a.shownEntries count, ?_, ?_⟩
    · intro i j y
      rw [shownEntries, Grid.entry_ofFn]
      exact Binary64.roundsTo_iff hcount
    · intro hshown
      apply read_text_of_isReadable hpos
      intro i j
      refine ⟨hfinite i j, ?_⟩
      rw [← isFinite_shown]
      have hentry := hshown i j
      rwa [shownEntries, Grid.entry_ofFn] at hentry
  · have hself : ∀ i j, Binary64.shown 17 (a.entries.entry i j) = a.entries.entry i j :=
      fun i j => Binary64.shown_seventeen (hfinite i j)
    have hentries : a.shownEntries 17 = a.entries := by
      ext i j
      rw [shownEntries, Grid.entry_ofFn, hself]
    have hread : read (a.text 17) = .ok { a with entries := a.shownEntries 17 } := by
      apply read_text_of_isReadable (by decide)
      intro i j
      refine ⟨hfinite i j, ?_⟩
      rw [← isFinite_shown, hself]
      exact hfinite i j
    rw [hread, hentries]

/-- With four digits one entry becomes the next power of ten, and the negative zero stays one. -/
theorem read_text_rounded_of_carry : ∃ a b : DenseMatrix Float,
    a.toRows = [[-0.0, 9.9996], [5e-324, -0.1]] ∧ b.toRows = [[-0.0, 10], [5e-324, -0.1]] ∧
      (∀ i j, (a.entries.entry i j).isFinite = true) ∧ read (a.text 4) = .ok b ∧ read (a.text 17) = .ok a := by
  let g : Grid Float 2 2 := #v[#v[-0.0, 9.9996], #v[5e-324, -0.1]]
  let g' : Grid Float 2 2 := #v[#v[-0.0, 10], #v[5e-324, -0.1]]
  have hfinite : ∀ i j, (g.entry i j).isFinite = true := by decide +kernel
  have hfinite' : ∀ i j, (g'.entry i j).isFinite = true := by decide +kernel
  have hsign : ∀ i j, Binary64.isNegative (g'.entry i j) = Binary64.isNegative (Binary64.shown 4 (g.entry i j)) := by
    decide +kernel
  have hordinal : ∀ i j, Binary64.ordinal (g'.entry i j) = Binary64.ordinal (Binary64.shown 4 (g.entry i j)) := by
    decide +kernel
  obtain ⟨hrounded, hself⟩ := read_text_rounded ⟨2, 2, g, by decide, by decide⟩ hfinite
  obtain ⟨b, hb, hread⟩ := hrounded 4 (by decide) (by decide)
  obtain rfl : g' = b := by
    ext i j
    apply (hb i j _).1
    rw [Binary64.roundsTo_iff (by decide)]
    exact Binary64.ext_ordinal (hsign i j) (hordinal i j)
  exact ⟨_, _, rfl, rfl, hfinite, hread hfinite', hself⟩

end DenseMatrix

end DeskCalc
