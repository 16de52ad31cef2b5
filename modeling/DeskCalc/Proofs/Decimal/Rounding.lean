import DeskCalc.Proofs.Decimal.Reading
import DeskCalc.Proofs.Decimal.Value

/-!
Correct rounding. The double that a decimal is read as is the nearest one to the number that the decimal
denotes, and of two that are equally near the one with the even significand. Infinity takes part with the value
`2 ^ 1024`, the next power of two after the largest double: numbers from half a step below it on are rounded
to it.
-/

namespace DeskCalc

/-- A number of halves decides where a fraction is rounded to, and a tie is decided by the parity. -/
theorem roundHalfEven_cases (a b : Nat) :
    (roundHalfEven a b = a / b ∧ 2 * (a % b) ≤ b ∧ (2 * (a % b) = b → a / b % 2 = 0)) ∨
    (roundHalfEven a b = a / b + 1 ∧ b ≤ 2 * (a % b) ∧ (2 * (a % b) = b → (a / b + 1) % 2 = 0)) := by
  unfold roundHalfEven
  simp only
  split
  next hbelow => exact .inl ⟨rfl, hbelow.le, fun htie => absurd htie hbelow.ne⟩
  split
  next habove => exact .inr ⟨rfl, habove.le, fun htie => absurd htie habove.ne'⟩
  next hbelow habove =>
    rcases Nat.mod_two_eq_zero_or_one (a / b) with heven | hodd
    · left
      omega
    · right
      omega

namespace Binary64

/-- The magnitude at ordinal `k` is the nearest to the number `q`; of two that are equally near it has the even
significand. -/
structure IsNearest (q : ℚ) (k : Nat) : Prop where
  le_infinite : k ≤ infinite
  distance_le : ∀ j ≤ infinite, |q - value k| ≤ |q - value j|
  even_of_tie : ∀ j ≤ infinite, j ≠ k → |q - value k| = |q - value j| → significand k % 2 = 0

/-! ### Magnitudes in their order -/

theorem significand_mod_two (k : Nat) : significand k % 2 = k % 2 := by
  have hsum := scale_mul_add_significand k
  unfold binade at hsum
  omega

theorem scale_eq_zero_or_le_significand (k : Nat) : scale k = 0 ∨ binade ≤ significand k := by
  by_cases hk : k < binade
  · left
    rw [scale, Nat.div_eq_of_lt hk]
  · right
    rw [significand, if_neg hk]
    exact Nat.le_add_right _ _

/-- A significand may carry into the next power of two. -/
theorem units_step_mul_add {step m : Nat} (hm : m ≤ 2 * binade) (hstep : step = 0 ∨ binade ≤ m) :
    units (step * binade + m) = m * 2 ^ step := by
  have hpos : 0 < binade := by decide
  rcases Nat.lt_or_ge m binade with hsmall | hlarge
  · obtain rfl : step = 0 := hstep.resolve_right (by omega)
    rw [Nat.zero_mul, Nat.zero_add, units, significand, if_pos hsmall, scale, Nat.div_eq_of_lt hsmall,
      Nat.zero_sub, Nat.shiftLeft_zero, pow_zero, Nat.mul_one]
  obtain ⟨r, rfl⟩ := Nat.exists_eq_add_of_le hlarge
  have hsum : step * binade + (binade + r) = r + (step + 1) * binade := by ring
  have hnot : ¬r + (step + 1) * binade < binade := by
    rw [← hsum]
    omega
  rw [hsum, units, significand, if_neg hnot, scale, Nat.add_mul_div_right _ _ hpos, Nat.add_mul_mod_self_right,
    Nat.shiftLeft_eq]
  rcases Nat.lt_or_ge r binade with hr | hr
  · rw [Nat.div_eq_of_lt hr, Nat.mod_eq_of_lt hr, Nat.zero_add, Nat.add_sub_cancel]
  · obtain rfl : r = binade := by omega
    rw [Nat.div_self hpos, Nat.mod_self, Nat.add_comm 1, Nat.add_sub_cancel, pow_succ]
    ring

theorem units_succ (k : Nat) : units (k + 1) = units k + 2 ^ scale k := by
  have hlt := significand_lt k
  have hvalid : scale k = 0 ∨ binade ≤ significand k + 1 := by
    rcases scale_eq_zero_or_le_significand k with h | h
    · exact .inl h
    · exact .inr (Nat.le_succ_of_le h)
  calc units (k + 1) = units (scale k * binade + (significand k + 1)) := by
        rw [← Nat.add_assoc, scale_mul_add_significand]
    _ = (significand k + 1) * 2 ^ scale k := units_step_mul_add hlt hvalid
    _ = units k + 2 ^ scale k := by rw [units, Nat.shiftLeft_eq, Nat.succ_mul]

theorem value_strictMono : StrictMono value := by
  apply strictMono_nat_of_lt_succ
  intro k
  have hlt : units k < units (k + 1) := by
    rw [units_succ]
    exact Nat.lt_add_of_pos_right (Nat.two_pow_pos _)
  have hpos : (0 : ℚ) < 2 ^ depth := by positivity
  exact div_lt_div_of_pos_right (Nat.cast_lt.2 hlt) hpos

theorem value_zero : value 0 = 0 := by simp [value, units, significand, binade]

/-! ### The nearest magnitude -/

section Nearest

variable {q : ℚ} {k : Nat}

theorem isNearest_value (hk : k ≤ infinite) : IsNearest (value k) k := by
  refine ⟨hk, ?_, ?_⟩
  · intro j _
    rw [sub_self, abs_zero]
    exact abs_nonneg _
  · intro j _ hne htie
    rw [sub_self, abs_zero, eq_comm, abs_eq_zero, sub_eq_zero] at htie
    exact absurd (value_strictMono.injective htie).symm hne

/-- From a number that lies between two neighbours all others are farther away than the one on their side. -/
theorem sub_le_abs_sub (hlow : value k ≤ q) (hhigh : q ≤ value (k + 1)) (j : Nat) :
    (j ≤ k ∧ q - value k ≤ |q - value j| ∧ (|q - value j| = q - value k → j = k)) ∨
    (k + 1 ≤ j ∧ value (k + 1) - q ≤ |q - value j| ∧ (|q - value j| = value (k + 1) - q → j = k + 1)) := by
  rcases Nat.lt_or_ge k j with hj | hj
  · right
    have hle : value (k + 1) ≤ value j := value_strictMono.monotone hj
    have habs : |q - value j| = value j - q := by rw [abs_sub_comm, abs_of_nonneg (by linarith)]
    refine ⟨hj, by linarith, ?_⟩
    intro htie
    exact value_strictMono.injective (by linarith)
  · left
    have hle : value j ≤ value k := value_strictMono.monotone hj
    have habs : |q - value j| = q - value j := abs_of_nonneg (by linarith)
    refine ⟨hj, by linarith, ?_⟩
    intro htie
    exact value_strictMono.injective (by linarith)

theorem isNearest_left (hk : k + 1 ≤ infinite) (hlow : value k ≤ q) (hhalf : q - value k ≤ value (k + 1) - q)
    (htie : q - value k = value (k + 1) - q → k % 2 = 0) : IsNearest q k := by
  have hhigh : q ≤ value (k + 1) := by linarith
  have habs : |q - value k| = q - value k := abs_of_nonneg (by linarith)
  refine ⟨by omega, ?_, ?_⟩
  · intro j _
    rcases sub_le_abs_sub hlow hhigh j with ⟨-, hdistance, -⟩ | ⟨-, hdistance, -⟩
    · linarith
    · linarith
  · intro j _ hne heq
    rw [significand_mod_two]
    rcases sub_le_abs_sub hlow hhigh j with ⟨-, -, hsame⟩ | ⟨-, hdistance, -⟩
    · exact absurd (hsame (by linarith)) hne
    · exact htie (by linarith)

theorem isNearest_right (hk : k + 1 ≤ infinite) (hhigh : q ≤ value (k + 1))
    (hhalf : value (k + 1) - q ≤ q - value k) (htie : q - value k = value (k + 1) - q → (k + 1) % 2 = 0) :
    IsNearest q (k + 1) := by
  have hlow : value k ≤ q := by linarith
  have habs : |q - value (k + 1)| = value (k + 1) - q := by rw [abs_sub_comm, abs_of_nonneg (by linarith)]
  refine ⟨hk, ?_, ?_⟩
  · intro j _
    rcases sub_le_abs_sub hlow hhigh j with ⟨-, hdistance, -⟩ | ⟨-, hdistance, -⟩
    · linarith
    · linarith
  · intro j _ hne heq
    rw [significand_mod_two]
    rcases sub_le_abs_sub hlow hhigh j with ⟨-, hdistance, -⟩ | ⟨-, -, hsame⟩
    · exact htie (by linarith)
    · exact absurd (hsame (by linarith)) hne

theorem isNearest_infinite (hq : value infinite ≤ q) : IsNearest q infinite := by
  have habs : |q - value infinite| = q - value infinite := abs_of_nonneg (by linarith)
  refine ⟨Nat.le_refl _, ?_, ?_⟩
  · intro j hj
    have hle : value j ≤ value infinite := value_strictMono.monotone hj
    rw [habs, abs_of_nonneg (by linarith)]
    linarith
  · intro j _ _ _
    decide

/-- Of two magnitudes that are equally near, one is nearest only if they are neighbours. -/
theorem IsNearest.eq_succ {j : Nat} (hj : IsNearest q j) (hk : k ≤ infinite) (hlt : j < k)
    (heq : |q - value j| = |q - value k|) : k = j + 1 := by
  by_contra hne
  have hnext : value j < value (j + 1) := value_strictMono (Nat.lt_succ_self j)
  have hlast : value (j + 1) < value k := value_strictMono (by omega)
  have hdistance := hj.distance_le (j + 1) (by omega)
  have hmiddle : q - value j = -(q - value k) := (abs_eq_abs.1 heq).resolve_left (by intro h; linarith)
  have hleft : |q - value j| = q - value j := abs_of_nonneg (by linarith)
  rcases abs_cases (q - value (j + 1)) with ⟨habs, -⟩ | ⟨habs, -⟩
  · linarith
  · linarith

/-- Only one magnitude is the nearest. -/
theorem IsNearest.unique {j : Nat} (hj : IsNearest q j) (hk : IsNearest q k) : j = k := by
  by_contra hne
  have heq : |q - value j| = |q - value k| :=
    le_antisymm (hj.distance_le k hk.le_infinite) (hk.distance_le j hj.le_infinite)
  have hevenj := hj.even_of_tie k hk.le_infinite (Ne.symm hne) heq
  have hevenk := hk.even_of_tie j hj.le_infinite hne heq.symm
  rw [significand_mod_two] at hevenj hevenk
  rcases Nat.lt_or_gt_of_ne hne with hlt | hlt
  · have hsucc := hj.eq_succ hk.le_infinite hlt heq
    omega
  · have hsucc := hk.eq_succ hj.le_infinite hlt heq.symm
    omega

end Nearest

/-! ### Rounding finds it -/

/-- The significand that is cut off has 53 bits, or fewer if the step is one unit. -/
theorem div_two_pow_step (n : Nat) :
    n / 2 ^ (n.log2 - 52) < 2 * binade ∧ (n.log2 - 52 = 0 ∨ binade ≤ n / 2 ^ (n.log2 - 52)) := by
  constructor
  · rw [Nat.div_lt_iff_lt_mul (Nat.two_pow_pos _)]
    calc n < 2 ^ (n.log2 + 1) := Nat.lt_log2_self
      _ ≤ 2 ^ (53 + (n.log2 - 52)) := Nat.pow_le_pow_right (by norm_num) (by omega)
      _ = 2 * binade * 2 ^ (n.log2 - 52) := Nat.pow_add 2 53 _
  · rcases Nat.eq_zero_or_pos (n.log2 - 52) with hzero | hpos
    · exact .inl hzero
    · right
      rw [Nat.le_div_iff_mul_le (Nat.two_pow_pos _)]
      have hne : n ≠ 0 := by
        rintro rfl
        revert hpos
        decide
      calc binade * 2 ^ (n.log2 - 52) = 2 ^ (52 + (n.log2 - 52)) := (Nat.pow_add 2 52 _).symm
        _ = 2 ^ n.log2 := by rw [Nat.add_sub_cancel' (by omega)]
        _ ≤ n := Nat.log2_self_le hne

/-- A fraction of units between two neighbours, measured in parts of the step. -/
theorem sub_value_step {numerator denominator step m r : Nat} (hpos : 0 < denominator) (hm : m < 2 * binade)
    (hstep : step = 0 ∨ binade ≤ m) (hdiv : denominator * 2 ^ step * m + r = numerator * 2 ^ depth) :
    ∃ part : ℚ, 0 < part ∧
      (numerator / denominator : ℚ) - value (step * binade + m) = r * part ∧
      value (step * binade + m + 1) - (numerator / denominator : ℚ) =
        (((denominator * 2 ^ step : ℕ) : ℚ) - r) * part := by
  have hdenominator : (denominator : ℚ) ≠ 0 := Nat.cast_ne_zero.2 hpos.ne'
  have hdepth : (2 : ℚ) ^ depth ≠ 0 := by positivity
  have hnumerator : (numerator : ℚ) * 2 ^ depth = denominator * 2 ^ step * m + r := by exact_mod_cast hdiv.symm
  have hlow : value (step * binade + m) = m * 2 ^ step / 2 ^ depth := by
    rw [value, units_step_mul_add hm.le hstep]
    push_cast
    rfl
  have hhigh : value (step * binade + m + 1) = (m + 1) * 2 ^ step / 2 ^ depth := by
    rw [value, Nat.add_assoc, units_step_mul_add hm (hstep.imp_right Nat.le_succ_of_le)]
    push_cast
    rfl
  refine ⟨1 / (denominator * 2 ^ depth), by positivity, ?_, ?_⟩
  · rw [hlow]
    field_simp
    linarith
  · rw [hhigh]
    push_cast
    field_simp
    linarith

/-- A number `r / b` of the way from one magnitude to the next is nearest to the one or the other as `r` is below
or above the half of `b`. -/
theorem isNearest_of_parts {k b r : Nat} {q part : ℚ} (hk : k < infinite) (hr : r < b) (hpart : 0 < part)
    (hlow : q - value k = r * part) (hhigh : value (k + 1) - q = (b - r) * part) :
    (2 * r ≤ b → (2 * r = b → k % 2 = 0) → IsNearest q k) ∧
    (b ≤ 2 * r → (2 * r = b → (k + 1) % 2 = 0) → IsNearest q (k + 1)) := by
  have hhalf : q - value k = value (k + 1) - q → 2 * r = b := by
    intro htie
    rw [hlow, hhigh] at htie
    have hsame : (r : ℚ) = b - r := mul_right_cancel₀ hpart.ne' htie
    have hdouble : ((2 * r : ℕ) : ℚ) = b := by
      push_cast
      linarith
    exact_mod_cast hdouble
  constructor
  · intro hle heven
    have hle' : (2 * r : ℚ) ≤ b := by exact_mod_cast hle
    apply isNearest_left hk
    · rw [← sub_nonneg, hlow]
      exact mul_nonneg (Nat.cast_nonneg r) hpart.le
    · rw [hlow, hhigh]
      exact mul_le_mul_of_nonneg_right (by linarith) hpart.le
    · exact fun htie => heven (hhalf htie)
  · intro hle heven
    have hle' : (b : ℚ) ≤ 2 * r := by exact_mod_cast hle
    have hnear : value (k + 1) - q ≤ q - value k := by
      rw [hlow, hhigh]
      exact mul_le_mul_of_nonneg_right (by linarith) hpart.le
    apply isNearest_right hk _ hnear
    · exact fun htie => heven (hhalf htie)
    · rw [← sub_nonneg, hhigh]
      exact mul_nonneg (sub_nonneg.2 (Nat.cast_le.2 hr.le)) hpart.le

/-- The double that is chosen for a fraction is the nearest one. -/
theorem isNearest_nearest {numerator denominator : Nat} (hpos : 0 < denominator) :
    IsNearest (numerator / denominator) (nearest numerator denominator) := by
  obtain ⟨hlt, hvalid⟩ := div_two_pow_step (numerator * 2 ^ depth / denominator)
  rw [Nat.div_div_eq_div_mul] at hlt hvalid
  simp only [nearest, Nat.shiftLeft_eq]
  generalize (numerator * 2 ^ depth / denominator).log2 - 52 = step at hlt hvalid
  have hparity : ∀ n, (step * binade + n) % 2 = n % 2 := by
    intro n
    unfold binade
    omega
  -- the fraction lies between the significand that is cut off and the next one
  have hb : 0 < denominator * 2 ^ step := Nat.mul_pos hpos (Nat.two_pow_pos _)
  have hdiv := Nat.div_add_mod (numerator * 2 ^ depth) (denominator * 2 ^ step)
  have hmod := Nat.mod_lt (numerator * 2 ^ depth) hb
  have hcases := roundHalfEven_cases (numerator * 2 ^ depth) (denominator * 2 ^ step)
  generalize roundHalfEven (numerator * 2 ^ depth) (denominator * 2 ^ step) = rounded at hcases
  generalize numerator * 2 ^ depth / (denominator * 2 ^ step) = m at *
  generalize numerator * 2 ^ depth % (denominator * 2 ^ step) = r at *
  obtain ⟨part, hpart, hlow, hhigh⟩ := sub_value_step hpos hlt hvalid hdiv
  rcases Nat.lt_or_ge (step * binade + m) infinite with hfinite | hfinite
  · have hnearest := isNearest_of_parts hfinite hmod hpart hlow hhigh
    rcases hcases with ⟨rfl, hle, heven⟩ | ⟨rfl, hle, heven⟩
    · rw [Nat.min_eq_left hfinite.le]
      apply hnearest.1 hle
      rwa [hparity]
    · rw [← Nat.add_assoc, Nat.min_eq_left hfinite]
      apply hnearest.2 hle
      rwa [Nat.add_assoc, hparity]
  · have hrounded : m ≤ rounded := by omega
    rw [Nat.min_eq_right (by omega)]
    apply isNearest_infinite
    apply (value_strictMono.monotone hfinite).trans
    rw [← sub_nonneg, hlow]
    exact mul_nonneg (Nat.cast_nonneg r) hpart.le

/-- Infinity has the value `2 ^ 1024`. -/
theorem units_infinite : units infinite = 2 ^ (1024 + depth) := by
  have hsum : infinite = 2046 * binade + binade := by decide
  have hexponent : 1024 + depth = 52 + 2046 := by decide
  calc units infinite = binade * 2 ^ 2046 := by
        rw [hsum, units_step_mul_add (by decide) (.inr (Nat.le_refl _))]
    _ = 2 ^ (1024 + depth) := by rw [hexponent, Nat.pow_add 2 52 2046, binade]

theorem value_infinite_le : value infinite ≤ 10 ^ (310 : ℤ) := by
  have hle : units infinite ≤ 10 ^ 310 * 2 ^ depth := by
    rw [units_infinite]
    exact two_pow_add_le (two_pow_le 11 2 (by norm_num) (by norm_num)) depth
  have hpos : (0 : ℚ) < 2 ^ depth := by positivity
  rw [value, div_le_iff₀ hpos]
  exact_mod_cast hle

/-- Half a unit is more than what is read as zero without looking at its digits. -/
theorem le_half_value_one : 10 ^ (-331 : ℤ) ≤ value 1 / 2 := by
  have hle : 2 ^ (depth + 1) ≤ 10 ^ 331 := two_pow_le 11 23 (by norm_num [depth]) (by norm_num)
  have hunits : units 1 = 1 := by decide
  have hpos : (0 : ℚ) < 2 ^ (depth + 1) := by positivity
  rw [value, hunits, div_div, ← pow_succ, zpow_neg, Nat.cast_one, ← one_div]
  apply one_div_le_one_div_of_le hpos
  exact_mod_cast hle

end Binary64

namespace Decimal

open Binary64 (IsNearest isNearest_value isNearest_infinite isNearest_left isNearest_nearest)

/-- A decimal is read as the double nearest to the number that it denotes. -/
theorem isNearest_ordinal (d : Decimal) : IsNearest d.value d.ordinal := by
  unfold ordinal
  split
  next hzero =>
    rw [value_eq_zero_iff.2 hzero, ← Binary64.value_zero]
    exact isNearest_value (Nat.zero_le _)
  next hne =>
    have hpos := value_pos hne
    rw [leading_eq_log hne]
    split
    next hlarge =>
      have hle : ((10 : ℕ) : ℚ) ^ (310 : ℤ) ≤ d.value := (Int.zpow_le_iff_le_log (by norm_num) hpos).2 hlarge
      exact isNearest_infinite (Binary64.value_infinite_le.trans (by exact_mod_cast hle))
    split
    next hsmall =>
      have hlt : d.value < ((10 : ℕ) : ℚ) ^ (-331 : ℤ) := (Int.lt_zpow_iff_log_lt (by norm_num) hpos).2 hsmall
      have hhalf : d.value < Binary64.value 1 / 2 :=
        lt_of_lt_of_le (by exact_mod_cast hlt) Binary64.le_half_value_one
      apply isNearest_left (by decide)
      · rw [Binary64.value_zero]
        exact hpos.le
      · rw [Binary64.value_zero, Nat.zero_add]
        linarith
      · intro _
        rfl
    · rw [value_eq_fraction]
      exact isNearest_nearest d.fraction_snd_pos

/-- The double that a decimal is read as is known by being the nearest. -/
theorem isNearest_iff (d : Decimal) (k : Nat) :
    IsNearest d.value k ↔ k = Binary64.ordinal d.toFloat := by
  rw [ordinal_toFloat]
  constructor
  · intro hk
    exact hk.unique d.isNearest_ordinal
  · rintro rfl
    exact d.isNearest_ordinal

end Decimal

/-! ### Numerals -/

namespace Numeral

/-- A numeral is read as the double nearest to the number that it denotes, which is never negative. -/
theorem toFloat_decimal_eq_iff (n : Numeral) (x : Float) :
    n.decimal.toFloat = x ↔
      Binary64.isNegative x = false ∧ Binary64.IsNearest n.value (Binary64.ordinal x) := by
  rw [← value_decimal, Decimal.isNearest_iff]
  constructor
  · rintro rfl
    exact ⟨n.decimal.isNegative_toFloat, rfl⟩
  · rintro ⟨hsign, hordinal⟩
    exact Binary64.ext_ordinal (n.decimal.isNegative_toFloat.trans hsign.symm) hordinal.symm

end Numeral

end DeskCalc
