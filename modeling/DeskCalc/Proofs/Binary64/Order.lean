import DeskCalc.Matrix.Scalar
import DeskCalc.Proofs.Binary64.Word

/-!
The order of doubles. Two numbers, infinite ones included, always compare; what is not a number compares with
nothing, so that a comparison that fails does not show that the opposite one holds.
-/

namespace DeskCalc.Binary64
open Float.Model

/-- Two doubles compare one way as they compare the other way. -/
theorem compare_swap (a b : UnpackedFloat) : b.compare a = (a.compare b).map Ordering.swap := by
  have hsign (s t : UnpackedFloat.Sign) : compare t s = (compare s t).swap := by
    cases s <;> cases t <;> rfl
  have hmagnitude (m m' : Nat) (e e' : Int) :
      (compare e' e).then (compare m' m) = ((compare e e').then (compare m m')).swap := by
    rw [Ordering.swap_then, ← Std.OrientedOrd.eq_swap, ← Std.OrientedOrd.eq_swap]
  cases a with
  | notANumber => cases b <;> rfl
  | infinity s =>
      cases b with
      | infinity t => exact congrArg some (hsign s t)
      | notANumber | zero | finite => cases s <;> rfl
  | zero s =>
      cases b with
      | notANumber | zero => rfl
      | infinity t | finite t => cases t <;> rfl
  | finite s m e =>
      cases b with
      | notANumber => rfl
      | infinity t => cases t <;> rfl
      | zero => cases s <;> rfl
      | finite t m' e' => cases s <;> cases t <;> simp [UnpackedFloat.compare, hmagnitude m m' e e']

/-- Only what is not a number does not compare. -/
theorem isSome_compare_iff (a b : UnpackedFloat) :
    (a.compare b).isSome = true ↔ a.isNaN = false ∧ b.isNaN = false := by
  fun_cases UnpackedFloat.compare a b <;> simp_all [UnpackedFloat.isNaN]

section Doubles

variable {x y : Float}

theorem lt_iff : x < y ↔ x.toModel.unpack.compare y.toModel.unpack = some .lt := by
  change decide (x.toModel.unpack.lt y.toModel.unpack = true) = true ↔ _
  rw [decide_eq_true_iff]
  exact beq_iff_eq

theorem le_iff : x ≤ y ↔ ∃ o, x.toModel.unpack.compare y.toModel.unpack = some o ∧ o.isLE = true := by
  change decide (x.toModel.unpack.le y.toModel.unpack = true) = true ↔ _
  rw [decide_eq_true_iff]
  exact Option.any_eq_true _ _

/-- Of two numbers that are not the one below the other, the second is at most the first. -/
theorem not_lt_iff (hx : x.isNaN = false) (hy : y.isNaN = false) : ¬x < y ↔ y ≤ x := by
  obtain ⟨o, ho⟩ := Option.isSome_iff_exists.1 ((isSome_compare_iff _ _).2 ⟨hx, hy⟩)
  rw [lt_iff, le_iff, compare_swap x.toModel.unpack, ho]
  cases o <;> simp

theorem not_le_of_isNaN (h : x.isNaN = true) (y : Float) : ¬y ≤ x := by
  rw [le_iff]
  rintro ⟨o, ho, -⟩
  have hnumbers := (isSome_compare_iff _ _).1 (Option.isSome_of_eq_some ho)
  exact absurd hnumbers.2 (Bool.not_eq_false _ ▸ h)

theorem not_lt_of_isNaN (h : x.isNaN = true) (y : Float) : ¬x < y := by
  rw [lt_iff]
  intro hlt
  have hnumbers := (isSome_compare_iff _ _).1 (Option.isSome_of_eq_some hlt)
  exact absurd hnumbers.1 (Bool.not_eq_false _ ▸ h)

theorem isNaN_iff : x.isNaN = true ↔ infinite < ordinal x := by
  have hordinal : ordinal x = x.toBits.toBitVec.toNat % signBit := rfl
  have hunpack : x.isNaN = (UnpackedFloat.unpack Format.binary64 x.toBits.toBitVec).isNaN := rfl
  rw [hunpack, hordinal, ← Nat.not_le, ← isNumber_iff, unpack_eq_ofFields, ofFields]
  split
  · split <;> simp_all [UnpackedFloat.isNaN]
  · split
    · split <;> simp_all [UnpackedFloat.isNaN]
    · simp_all [UnpackedFloat.isNaN]

theorem isNaN_of_isFinite (h : x.isFinite = true) : x.isNaN = false := by
  rw [← Bool.not_eq_true, isNaN_iff, Nat.not_lt]
  exact (isFinite_iff.1 h).le

/-- A number that is not infinite is finite. -/
theorem isFinite_of_not_isInf (hnumber : x.isNaN = false) (hbounded : x.isInf = false) : x.isFinite = true := by
  change x.toModel.unpack.isNaN = false at hnumber
  change x.toModel.unpack.isInf = false at hbounded
  change x.toModel.unpack.isFinite = true
  cases hx : x.toModel.unpack with
  | notANumber =>
      rw [hx] at hnumber
      cases hnumber
  | infinity s =>
      rw [hx] at hbounded
      cases hbounded
  | zero | finite => rfl

theorem isNaN_neg (x : Float) : (-x).isNaN = x.isNaN := by
  cases h : x.isNaN with
  | true =>
      have hunpack : x.toModel.unpack = .notANumber := UnpackedFloat.isNaN_iff.1 h
      change (UnpackedFloat.unpack Format.binary64
        (UnpackedFloat.pack Format.binary64 x.toModel.unpack.neg)).isNaN = true
      rw [hunpack]
      rfl
  | false =>
      have hle : ordinal x ≤ infinite := Nat.not_lt.1 (mt isNaN_iff.2 (Bool.eq_false_iff.1 h))
      rw [← Bool.not_eq_true, isNaN_iff, ordinal_neg hle, Nat.not_lt]
      exact hle

/-- The absolute value of what is not a number is not a number. -/
theorem isNaN_magnitude (x : Float) : (magnitude x).isNaN = x.isNaN := by
  unfold magnitude
  split
  · exact isNaN_neg x
  · rfl

end Doubles

end DeskCalc.Binary64
