import DeskCalc.Matrix.Rank
import DeskCalc.Proofs.Binary64.Order

/-!
The largest of many doubles. Doubles that are numbers compare as their keys, and of two numbers above a third one that
is not negative neither is below the other only if they are the same double: zero is the one value with two doubles, and
it is not above. So the larger of many doubles can be taken in any order, what is no number being passed over.
-/

namespace DeskCalc.Binary64
open Float.Model

/-- The place of a double among the numbers: its kind and sign, then the exponent, then the coefficient. -/
def key : UnpackedFloat → Int ×ₗ Int ×ₗ Int
  | .notANumber | .zero _ => toLex (0, toLex (0, 0))
  | .infinity .negative => toLex (-2, toLex (0, 0))
  | .finite .negative m e _ => toLex (-1, toLex (-e, -m))
  | .finite .positive m e _ => toLex (1, toLex (e, m))
  | .infinity .positive => toLex (2, toLex (0, 0))

/-- Numbers compare as their keys. -/
theorem compare_eq_lt_iff (a b : UnpackedFloat) :
    a.compare b = some .lt ↔ a.isNaN = false ∧ b.isNaN = false ∧ key a < key b := by
  have hsign : compare UnpackedFloat.Sign.negative .positive = .lt ∧
      compare UnpackedFloat.Sign.positive .negative = .gt ∧ ∀ s : UnpackedFloat.Sign, compare s s = .eq :=
    ⟨rfl, rfl, by rintro ⟨⟩ <;> rfl⟩
  -- by the kind and the sign of both
  rcases a with ⟨⟨⟩⟩ | _ | ⟨⟨⟩⟩ | ⟨⟨⟩, m, e, _⟩ <;>
    rcases b with ⟨⟨⟩⟩ | _ | ⟨⟨⟩⟩ | ⟨⟨⟩, m', e', _⟩ <;>
    simp [UnpackedFloat.compare, UnpackedFloat.isNaN, key, hsign, Prod.Lex.toLex_lt_toLex, Ordering.then_eq_lt,
      Ordering.then_eq_gt, compare_lt_iff_lt, compare_gt_iff_gt]

section Doubles

open Grid (larger)

variable {x y z : Float}

theorem lt_iff_key : x < y ↔
    x.isNaN = false ∧ y.isNaN = false ∧ key x.toModel.unpack < key y.toModel.unpack :=
  lt_iff.trans (compare_eq_lt_iff _ _)

theorem lt_trans (hxy : x < y) (hyz : y < z) : x < z := by
  rw [lt_iff_key] at *
  exact ⟨hxy.1, hyz.2.1, hxy.2.2.trans hyz.2.2⟩

theorem not_lt_of_lt (h : x < y) : ¬y < x := by
  rw [lt_iff_key] at *
  exact fun h' => h.2.2.asymm h'.2.2

/-- A double is known by its unpacked form. -/
theorem eq_of_unpack_eq (h : x.toModel.unpack = y.toModel.unpack) : x = y := by
  have hpack (w : Float) : Float.ofModel (Float.Model.pack w.toModel.unpack) = w := ofBits_toBits w
  rw [← hpack x, h, hpack]

/-- A key other than that of zero belongs to one double. -/
theorem eq_of_key_eq (h : key x.toModel.unpack = key y.toModel.unpack)
    (hpos : key (0 : Float).toModel.unpack < key x.toModel.unpack) : x = y := by
  apply eq_of_unpack_eq
  generalize x.toModel.unpack = a at h hpos
  generalize y.toModel.unpack = b at h
  have hzero : key (0 : Float).toModel.unpack = toLex (0, toLex (0, 0)) := rfl
  rw [hzero] at hpos
  rcases a with ⟨⟨⟩⟩ | _ | ⟨⟨⟩⟩ | ⟨⟨⟩, m, e, _⟩ <;>
    rcases b with ⟨⟨⟩⟩ | _ | ⟨⟨⟩⟩ | ⟨⟨⟩, m', e', _⟩ <;>
    simp_all [key, Prod.Lex.toLex_lt_toLex]

/-- Two numbers above one that is not negative are the same double if neither is below the other. -/
theorem eq_of_not_lt (hz : ¬z < 0) (hzx : z < x) (hzy : z < y) (hxy : ¬x < y) (hyx : ¬y < x) : x = y := by
  rw [lt_iff_key] at *
  obtain ⟨hznumber, hx, hzx⟩ := hzx
  obtain ⟨-, hy, hzy⟩ := hzy
  have hkey := le_antisymm (not_lt.1 fun h => hyx ⟨hy, hx, h⟩) (not_lt.1 fun h => hxy ⟨hx, hy, h⟩)
  have hzero : key (0 : Float).toModel.unpack ≤ key z.toModel.unpack := not_lt.1 fun h => hz ⟨hznumber, rfl, h⟩
  exact eq_of_key_eq hkey (hzero.trans_lt hzx)

theorem larger_not_lt_zero (hz : ¬z < 0) (x : Float) : ¬larger z x < 0 := by
  unfold larger
  split
  next h => exact fun hx => hz (lt_trans h hx)
  next => exact hz

/-- It does not matter which of two doubles is compared first. -/
theorem larger_right_comm (hz : ¬z < 0) (x y : Float) : larger (larger z x) y = larger (larger z y) x := by
  unfold larger
  by_cases hx : z < x
  · by_cases hy : z < y
    · rw [if_pos hx, if_pos hy]
      by_cases hxy : x < y
      · rw [if_pos hxy, if_neg (not_lt_of_lt hxy)]
      · by_cases hyx : y < x
        · rw [if_neg hxy, if_pos hyx]
        · rw [if_neg hxy, if_neg hyx, eq_of_not_lt hz hx hy hxy hyx]
    · rw [if_pos hx, if_neg hy, if_pos hx, if_neg fun hxy => hy (lt_trans hx hxy)]
  · by_cases hy : z < y
    · rw [if_neg hx, if_pos hy, if_neg fun hyx => hx (lt_trans hy hyx)]
    · rw [if_neg hx, if_neg hy, if_neg hx]

theorem foldl_larger_perm {xs ys : List Float} (h : xs.Perm ys) (hz : ¬z < 0) :
    xs.foldl larger z = ys.foldl larger z := by
  induction h generalizing z with
  | nil => rfl
  | cons x _ ih => exact ih (larger_not_lt_zero hz x)
  | swap x y rest => rw [List.foldl_cons, List.foldl_cons, List.foldl_cons, List.foldl_cons, larger_right_comm hz]
  | trans _ _ ih ih' => exact (ih hz).trans (ih' hz)

end Doubles

end DeskCalc.Binary64
