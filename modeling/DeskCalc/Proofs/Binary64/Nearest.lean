import DeskCalc.Binary64.Nearest
import Mathlib

/-!
The nearest double depends on the number alone and not on the fraction that it is given as, and the nearest
double of a number that is a double is this double. Both hold of rounding to a whole number first.
-/

namespace DeskCalc

theorem roundHalfEven_mul {m : Nat} (hm : 0 < m) (a b : Nat) :
    roundHalfEven (m * a) (m * b) = roundHalfEven a b := by
  have hbelow : 2 * (m * (a % b)) < m * b ↔ 2 * (a % b) < b := by
    rw [Nat.mul_left_comm, Nat.mul_lt_mul_left hm]
  have habove : m * b < 2 * (m * (a % b)) ↔ b < 2 * (a % b) := by
    rw [Nat.mul_left_comm, Nat.mul_lt_mul_left hm]
  simp only [roundHalfEven, Nat.mul_div_mul_left a b hm, Nat.mul_mod_mul_left, hbelow, habove]

theorem roundHalfEven_mul_self {b : Nat} (hb : 0 < b) (a : Nat) : roundHalfEven (a * b) b = a := by
  simp only [roundHalfEven, Nat.mul_div_cancel a hb, Nat.mul_mod_left, Nat.mul_zero, hb, if_true]

namespace Binary64

theorem nearest_mul {m : Nat} (hm : 0 < m) (a b : Nat) : nearest (m * a) (m * b) = nearest a b := by
  simp only [nearest, Nat.shiftLeft_eq, Nat.mul_assoc, Nat.mul_div_mul_left _ _ hm, roundHalfEven_mul hm]

/-- Equal fractions have the same nearest double. -/
theorem nearest_congr {a b c d : Nat} (hb : 0 < b) (hd : 0 < d) (h : a * d = c * b) :
    nearest a b = nearest c d := by
  calc nearest a b = nearest (d * a) (d * b) := (nearest_mul hd a b).symm
    _ = nearest (b * c) (b * d) := by rw [Nat.mul_comm d a, h, Nat.mul_comm c b, Nat.mul_comm d b]
    _ = nearest c d := nearest_mul hb c d

theorem units_pos {k : Nat} (hk : k ≠ 0) : 0 < units k := by
  have hpos : 0 < significand k := by
    unfold significand
    split
    · exact Nat.pos_of_ne_zero hk
    · exact Nat.add_pos_left (by decide) _
  rw [units, Nat.shiftLeft_eq]
  exact Nat.mul_pos hpos (Nat.two_pow_pos _)

/-- The step of the significand of `k` is the one that is chosen for its magnitude. -/
theorem log2_units_sub {k : Nat} : (units k).log2 - 52 = scale k := by
  by_cases hk : k < binade
  · have hscale : scale k = 0 := by rw [scale, Nat.div_eq_of_lt hk]
    have hlog : k.log2 < 52 := by
      by_cases hzero : k = 0
      · rw [hzero]
        decide
      · exact (Nat.log2_lt hzero).2 hk
    rw [units, hscale, significand, if_pos hk, Nat.shiftLeft_zero]
    omega
  · have hsignificand : binade ≤ significand k := by
      rw [significand, if_neg hk]
      exact Nat.le_add_right _ _
    have hlog : (units k).log2 = 52 + scale k := by
      have hpos : units k ≠ 0 := (units_pos (by rintro rfl; exact hk (by decide))).ne'
      rw [Nat.log2_eq_iff hpos, units, Nat.shiftLeft_eq]
      constructor
      · calc 2 ^ (52 + scale k) = binade * 2 ^ scale k := Nat.pow_add 2 52 _
          _ ≤ significand k * 2 ^ scale k := Nat.mul_le_mul_right _ hsignificand
      · calc significand k * 2 ^ scale k < 2 * binade * 2 ^ scale k :=
              Nat.mul_lt_mul_of_pos_right (significand_lt k) (Nat.two_pow_pos _)
          _ = 2 ^ (53 + scale k) := (Nat.pow_add 2 53 _).symm
          _ = 2 ^ (52 + scale k + 1) := by rw [Nat.add_right_comm]
    rw [hlog, Nat.add_sub_cancel_left]

theorem scale_mul_add_significand (k : Nat) : scale k * binade + significand k = k := by
  have hdiv := Nat.div_add_mod' k binade
  unfold significand scale
  split
  next h => rw [Nat.div_eq_of_lt h, Nat.zero_sub, Nat.zero_mul, Nat.zero_add]
  next h =>
    have hone : 1 ≤ k / binade := (Nat.one_le_div_iff (by decide)).2 (Nat.not_lt.1 h)
    obtain ⟨m, hm⟩ := Nat.exists_eq_add_of_le' hone
    rw [hm] at hdiv ⊢
    rw [Nat.add_sub_cancel]
    linarith

/-- A double is the nearest to itself. -/
theorem nearest_fraction {k : Nat} (hk : k < infinite) : nearest (fraction k).1 (fraction k).2 = k := by
  have hpos := fraction_snd_pos k
  have hshift : (fraction k).2 <<< scale k = 2 ^ scale k * (fraction k).2 := by
    rw [Nat.shiftLeft_eq, Nat.mul_comm]
  have hunits : units k * (fraction k).2 = significand k * (2 ^ scale k * (fraction k).2) := by
    rw [units, Nat.shiftLeft_eq, Nat.mul_assoc]
  have hround : roundHalfEven (units k * (fraction k).2) ((fraction k).2 <<< scale k) = significand k := by
    rw [hshift, hunits]
    exact roundHalfEven_mul_self (Nat.mul_pos (Nat.two_pow_pos _) hpos) _
  simp only [nearest, fraction_fst_shiftLeft, Nat.mul_div_cancel _ hpos, log2_units_sub, hround,
    scale_mul_add_significand]
  exact Nat.min_eq_left (Nat.le_of_lt hk)

/-- Finite doubles are below `2 ^ 1024`. -/
theorem units_lt {k : Nat} (hk : k < infinite) : units k < 2 ^ (1024 + depth) := by
  have hscale : 53 + scale k ≤ 1024 + depth := by
    have : k / binade < 2047 := Nat.div_lt_of_lt_mul (by rwa [Nat.mul_comm])
    unfold scale depth
    omega
  calc units k = significand k * 2 ^ scale k := Nat.shiftLeft_eq _ _
    _ < 2 ^ 53 * 2 ^ scale k := Nat.mul_lt_mul_of_pos_right (significand_lt k) (Nat.two_pow_pos _)
    _ = 2 ^ (53 + scale k) := (Nat.pow_add 2 53 _).symm
    _ ≤ 2 ^ (1024 + depth) := Nat.pow_le_pow_right (by decide) hscale

end Binary64

end DeskCalc
