import DeskCalc.Binary64.Shortest
import DeskCalc.Proofs.Binary64.Nearest
import DeskCalc.Proofs.Decimal.Numeral

/-!
The number that a decimal denotes. Trimming keeps it, the exponent of the first digit is its logarithm, and
the double that is nearest to the decimal depends on it alone. So a decimal of the value of a double is read
as this double, and the shortest decimal of a double is. The number that a numeral denotes is that of its decimal.
-/

namespace DeskCalc

/-- The value of the magnitude at ordinal `k`. -/
def Binary64.value (k : Nat) : ℚ := units k / 2 ^ depth

/-- Fractions of equal value, multiplied out. -/
theorem mul_eq_mul_of_div_eq {a b c d : Nat} (hb : 0 < b) (hd : 0 < d) (h : (a / b : ℚ) = c / d) :
    a * d = c * b := by
  rw [div_eq_div_iff (Nat.cast_ne_zero.2 hb.ne') (Nat.cast_ne_zero.2 hd.ne')] at h
  exact_mod_cast h

theorem zpow_ten_pos (e : Int) : (0 : ℚ) < 10 ^ e := zpow_pos (by norm_num) e

theorem pow_mul_zpow_ten {n : Nat} {place e : Int} (h : place + n = e) :
    ((10 ^ n : ℕ) : ℚ) * 10 ^ place = 10 ^ e := by
  push_cast
  rw [← zpow_natCast, ← zpow_add₀ (by norm_num), ← h, add_comm]

/-- A logarithm is known by the powers of ten around the number. -/
theorem eq_log {r : ℚ} {e : Int} (hlow : 10 ^ e ≤ r) (hhigh : r < 10 ^ (e + 1)) : e = Int.log 10 r := by
  have hpos : 0 < r := lt_of_lt_of_le (zpow_ten_pos e) hlow
  apply le_antisymm
  · exact (Int.zpow_le_iff_le_log (by norm_num) hpos).1 (by exact_mod_cast hlow)
  · exact Int.lt_add_one_iff.1 ((Int.lt_zpow_iff_log_lt (by norm_num) hpos).1 (by exact_mod_cast hhigh))

namespace Decimal

/-- The number that is denoted. -/
def value (d : Decimal) : ℚ := d.coefficient * 10 ^ d.exponent

variable {d d' : Decimal}

theorem value_eq_zero_iff : d.value = 0 ↔ d.coefficient = 0 := by
  have : (10 : ℚ) ^ d.exponent ≠ 0 := zpow_ne_zero _ (by norm_num)
  simp [value, this]

theorem value_pos (h : d.coefficient ≠ 0) : 0 < d.value :=
  mul_pos (Nat.cast_pos.2 (Nat.pos_of_ne_zero h)) (zpow_ten_pos _)

theorem value_div_ten {coefficient : Nat} (h : coefficient % 10 = 0) (exponent : Int) :
    (Decimal.mk (coefficient / 10) (exponent + 1)).value = coefficient * 10 ^ exponent := by
  have hdiv : (coefficient : ℚ) = (coefficient / 10 : Nat) * 10 := by
    exact_mod_cast (Nat.div_mul_cancel (Nat.dvd_of_mod_eq_zero h)).symm
  rw [value, zpow_add_one₀ (by norm_num), hdiv]
  ring

theorem value_trimCoefficient (coefficient : Nat) (exponent : Int) :
    (trimCoefficient coefficient exponent).value = coefficient * 10 ^ exponent := by
  fun_induction trimCoefficient coefficient exponent with
  | case1 coefficient exponent h ih => exact ih.trans (value_div_ten h.2 exponent)
  | case2 coefficient exponent h => rfl

@[simp] theorem value_trimmed (d : Decimal) : d.trimmed.value = d.value :=
  value_trimCoefficient d.coefficient d.exponent

theorem fraction_snd_pos (d : Decimal) : 0 < d.fraction.2 := Nat.pow_pos (by decide)

theorem value_eq_fraction (d : Decimal) : d.value = d.fraction.1 / d.fraction.2 := by
  obtain ⟨n, hn | hn⟩ := d.exponent.eq_nat_or_neg
  · simp [value, fraction, hn, tenTo]
  · simp [value, fraction, hn, tenTo, div_eq_mul_inv]

theorem pow_digitCount_le {n : Nat} (hn : n ≠ 0) : 10 ^ (digitCount n - 1) ≤ n := by
  by_cases hone : digitCount n - 1 = 0
  · rw [hone]
    exact Nat.pos_of_ne_zero hn
  · have hlt : ¬digitCount n ≤ digitCount n - 1 := by omega
    rwa [digitCount_le_iff (Nat.pos_of_ne_zero hone), Nat.not_lt] at hlt

theorem lt_pow_digitCount (n : Nat) : n < 10 ^ digitCount n :=
  (digitCount_le_iff (digitCount_pos n)).1 (Nat.le_refl _)

theorem zpow_digitCount_sub_one_le {n : Nat} (hn : n ≠ 0) : (10 : ℚ) ^ ((digitCount n : ℤ) - 1) ≤ n := by
  have hpos := digitCount_pos n
  have hexponent : (digitCount n : ℤ) - 1 = ((digitCount n - 1 : ℕ) : ℤ) := by omega
  rw [hexponent, zpow_natCast]
  exact_mod_cast pow_digitCount_le hn

theorem lt_zpow_digitCount (n : Nat) : (n : ℚ) < 10 ^ (digitCount n : ℤ) := by
  rw [zpow_natCast]
  exact_mod_cast lt_pow_digitCount n

/-- The first digit stands at the logarithm of the number. -/
theorem leading_eq_log (h : d.coefficient ≠ 0) : d.leading = Int.log 10 d.value := by
  have hten := zpow_ten_pos d.exponent
  apply eq_log
  · calc (10 : ℚ) ^ d.leading = 10 ^ ((digitCount d.coefficient : ℤ) - 1) * 10 ^ d.exponent := by
          rw [← zpow_add₀ (by norm_num), leading]
          congr 1
          ring
      _ ≤ d.value := mul_le_mul_of_nonneg_right (zpow_digitCount_sub_one_le h) hten.le
  · calc d.value < 10 ^ (digitCount d.coefficient : ℤ) * 10 ^ d.exponent :=
          mul_lt_mul_of_pos_right (lt_zpow_digitCount d.coefficient) hten
      _ = 10 ^ (d.leading + 1) := by
          rw [← zpow_add₀ (by norm_num), leading]
          congr 1
          ring

/-- The double that is nearest to a decimal depends on its value alone. -/
theorem ordinal_congr (h : d.value = d'.value) : d.ordinal = d'.ordinal := by
  have hzero : d.coefficient = 0 ↔ d'.coefficient = 0 := by
    rw [← value_eq_zero_iff, h, value_eq_zero_iff]
  unfold ordinal
  by_cases hd : d.coefficient = 0
  · rw [if_pos hd, if_pos (hzero.1 hd)]
  · have hd' := mt hzero.2 hd
    have hcross : d.fraction.1 * d'.fraction.2 = d'.fraction.1 * d.fraction.2 := by
      rw [value_eq_fraction, value_eq_fraction] at h
      exact mul_eq_mul_of_div_eq d.fraction_snd_pos d'.fraction_snd_pos h
    rw [if_neg hd, if_neg hd', leading_eq_log hd, leading_eq_log hd', h,
      Binary64.nearest_congr d.fraction_snd_pos d'.fraction_snd_pos hcross]

end Decimal

namespace Numeral

theorem valueOf_append (ds es : List Char) : valueOf (ds ++ es) = 10 ^ es.length * valueOf ds + valueOf es := by
  rw [valueOf, Nat.ofDigitChars_append, Nat.ofDigitChars_eq_ofDigitChars_zero]
  rfl

/-- The number that a numeral denotes, in its parts: the whole number, the fraction and the power of ten. -/
def value (n : Numeral) : ℚ :=
  (valueOf n.whole + valueOf n.fraction / 10 ^ n.fraction.length) * 10 ^ n.exponent?.elim 0 Exponent.value

theorem value_decimal (n : Numeral) : n.decimal.value = n.value := by
  have hten : (10 : ℚ) ≠ 0 := by norm_num
  rw [decimal, Decimal.value, valueOf_append, value, zpow_sub₀ hten, zpow_natCast]
  push_cast
  field_simp

end Numeral

namespace Binary64

theorem value_eq_fraction (k : Nat) : value k = (fraction k).1 / (fraction k).2 := by
  have hshift := fraction_fst_shiftLeft k
  rw [Nat.shiftLeft_eq] at hshift
  have hpos : ((fraction k).2 : ℚ) ≠ 0 := by exact_mod_cast (fraction_snd_pos k).ne'
  rw [value, div_eq_div_iff (by positivity) hpos]
  exact_mod_cast hshift.symm

/-- Powers of two against powers of ten: `2 ^ 93` is just below `10 ^ 28`. -/
theorem two_pow_le {i e : Nat} (n m : Nat) (hi : i ≤ 93 * n + 3 * m) (he : 28 * n + m ≤ e) :
    2 ^ i ≤ 10 ^ e := by
  calc 2 ^ i ≤ 2 ^ (93 * n + 3 * m) := Nat.pow_le_pow_right (by norm_num) hi
    _ = (2 ^ 93) ^ n * (2 ^ 3) ^ m := by rw [pow_add, pow_mul, pow_mul]
    _ ≤ (10 ^ 28) ^ n * 10 ^ m :=
        Nat.mul_le_mul (Nat.pow_le_pow_left (by norm_num) n) (Nat.pow_le_pow_left (by norm_num) m)
    _ = 10 ^ (28 * n + m) := by rw [pow_add, pow_mul]
    _ ≤ 10 ^ e := Nat.pow_le_pow_right (by norm_num) he

theorem two_pow_add_le {i e : Nat} (h : 2 ^ i ≤ 10 ^ e) (j : Nat) : 2 ^ (i + j) ≤ 10 ^ e * 2 ^ j := by
  rw [pow_add]
  exact Nat.mul_le_mul_right _ h

theorem value_lt {k : Nat} (hk : k < infinite) : value k < 10 ^ (310 : ℤ) := by
  have hlt : units k < 10 ^ 310 * 2 ^ depth :=
    (units_lt hk).trans_le (two_pow_add_le (two_pow_le 11 2 (by norm_num) (by norm_num)) depth)
  have hpos : (0 : ℚ) < 2 ^ depth := by positivity
  rw [value, div_lt_iff₀ hpos]
  exact_mod_cast hlt

theorem le_value {k : Nat} (hk : k ≠ 0) : 10 ^ (-331 : ℤ) ≤ value k := by
  have hle : 2 ^ depth ≤ units k * 10 ^ 331 :=
    (two_pow_le 11 23 (by norm_num [depth]) (by norm_num)).trans (Nat.le_mul_of_pos_left _ (units_pos hk))
  have hpos : (0 : ℚ) < 2 ^ depth := by positivity
  rw [value, zpow_neg, le_div_iff₀ hpos, inv_mul_le_iff₀ (by positivity), mul_comm]
  exact_mod_cast hle

theorem value_pos {k : Nat} (hk : k ≠ 0) : 0 < value k := lt_of_lt_of_le (by positivity) (le_value hk)

/-- A decimal of the value of a double is read as this double. -/
theorem ordinal_eq_of_value_eq {d : Decimal} {k : Nat} (hk : k < infinite) (h : d.value = value k) :
    d.ordinal = k := by
  unfold Decimal.ordinal
  by_cases hzero : k = 0
  · have hd : d.coefficient = 0 := by
      rw [← Decimal.value_eq_zero_iff, h, hzero]
      simp [value, units, significand, binade]
    rw [if_pos hd, hzero]
  · have hpos : 0 < d.value := h ▸ value_pos hzero
    have hd : d.coefficient ≠ 0 := mt Decimal.value_eq_zero_iff.2 hpos.ne'
    have hlow : ¬d.leading < -331 := by
      rw [Decimal.leading_eq_log hd, not_lt, ← Int.zpow_le_iff_le_log (by norm_num) hpos, h]
      exact_mod_cast le_value hzero
    have hhigh : ¬310 ≤ d.leading := by
      rw [Decimal.leading_eq_log hd, not_le, ← Int.lt_zpow_iff_log_lt (by norm_num) hpos, h]
      exact_mod_cast value_lt hk
    have hcross : d.fraction.1 * (fraction k).2 = (fraction k).1 * d.fraction.2 := by
      rw [Decimal.value_eq_fraction, value_eq_fraction] at h
      exact mul_eq_mul_of_div_eq d.fraction_snd_pos (fraction_snd_pos k) h
    rw [if_neg hd, if_neg hhigh, if_neg hlow,
      nearest_congr d.fraction_snd_pos (fraction_snd_pos k) hcross, nearest_fraction hk]

theorem value_expansion (k : Nat) : (expansion k).value = value k := by
  have hten : (10 : ℚ) ^ depth = 2 ^ depth * 5 ^ depth := by
    rw [← mul_pow]
    norm_num
  have hfive : (5 : ℚ) ^ depth ≠ 0 := by positivity
  rw [Decimal.value, expansion, value, zpow_neg, zpow_natCast, hten, Nat.pow_eq, Nat.cast_mul, Nat.cast_pow,
    Nat.cast_ofNat, ← div_eq_mul_inv, mul_div_mul_right _ _ hfive]

theorem ordinal_of_neighbour? {k : Nat} {place : Int} {d : Decimal} (h : neighbour? k place = some d) :
    d.ordinal = k := by
  unfold neighbour? at h
  simp only at h
  split at h
  next hbelow =>
    split at h
    next habove =>
      cases h
      exact habove.1
    next =>
      cases h
      exact hbelow
  next =>
    split at h
    next habove =>
      cases h
      exact habove
    next => cases h

theorem exponent_of_neighbour? {k : Nat} {place : Int} {d : Decimal} (h : neighbour? k place = some d) :
    d.exponent = place := by
  unfold neighbour? at h
  simp only at h
  split at h
  · split at h <;> cases h <;> rfl
  · split at h
    · cases h
      rfl
    · cases h

/-- The shortest decimal of a double is read as this double. -/
theorem ordinal_shortest {k : Nat} (hk : k < infinite) : (shortest k).ordinal = k := by
  unfold shortest
  split
  next h => rw [h]; rfl
  simp only
  split
  next d h =>
    obtain ⟨i, -, hi⟩ := List.exists_of_findSome?_eq_some h
    rw [Decimal.ordinal_congr d.value_trimmed, ordinal_of_neighbour? hi]
  next => rw [Decimal.ordinal_congr (expansion k).value_trimmed, ordinal_eq_of_value_eq hk (value_expansion k)]

end Binary64

end DeskCalc
