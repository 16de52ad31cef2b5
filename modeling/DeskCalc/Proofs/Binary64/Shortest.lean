import DeskCalc.Proofs.Decimal.Rounding

/-!
Seventeen digits always suffice. Two neighbours are at least `2 ^ (-53)` of their size apart, and the multiples of
a power of ten with seventeen digits lie more densely than that. So the search for the shortest decimal ends
before its last place, and what it finds has seventeen digits at most.
-/

namespace DeskCalc

/-! ### Powers of ten -/

namespace Decimal

theorem tenTo_div_tenTo (e : Int) : (tenTo e.toNat : ℚ) / tenTo (-e).toNat = 10 ^ e := by
  obtain ⟨n, hn | hn⟩ := e.eq_nat_or_neg
  · simp [hn, tenTo]
  · simp [hn, tenTo]

theorem tenTo_pos (n : Nat) : (0 : ℚ) < tenTo n := by
  rw [tenTo]
  exact_mod_cast Nat.pow_pos (by decide)

/-- Trimming leaves no zero at the end. -/
theorem trimCoefficient_coefficient (coefficient : Nat) (exponent : Int) :
    (trimCoefficient coefficient exponent).coefficient ≤ coefficient ∧
      ((trimCoefficient coefficient exponent).coefficient = 0 ∨
        (trimCoefficient coefficient exponent).coefficient % 10 ≠ 0) := by
  fun_induction trimCoefficient coefficient exponent with
  | case1 coefficient exponent h ih => exact ⟨ih.1.trans (Nat.div_le_self _ _), ih.2⟩
  | case2 coefficient exponent h =>
      refine ⟨Nat.le_refl _, ?_⟩
      change coefficient = 0 ∨ coefficient % 10 ≠ 0
      omega

theorem digitCount_trimmed_le {d : Decimal} {n : Nat} (hn : 0 < n) (h : d.coefficient ≤ 10 ^ n) :
    digitCount d.trimmed.coefficient ≤ n := by
  obtain ⟨hle, hend⟩ := trimCoefficient_coefficient d.coefficient d.exponent
  rw [digitCount_le_iff hn]
  apply lt_of_le_of_ne (hle.trans h)
  intro heq
  have hten : tenTo n % 10 = 0 := Nat.mod_eq_zero_of_dvd (dvd_pow_self 10 hn.ne')
  have hpos : 0 < tenTo n := Nat.pow_pos (by decide)
  change (trimCoefficient d.coefficient d.exponent).coefficient = 10 ^ n at heq
  change (10 : Nat) ^ n % 10 = 0 at hten
  change 0 < (10 : Nat) ^ n at hpos
  omega

section Trimmed

variable {d d' : Decimal}

theorem trimmed_coefficient_ne_zero (hne : d.coefficient ≠ 0) : d.trimmed.coefficient ≠ 0 := by
  rw [Ne, ← value_eq_zero_iff, value_trimmed, value_eq_zero_iff]
  exact hne

theorem trimmed_coefficient_mod_ten (hne : d.coefficient ≠ 0) : d.trimmed.coefficient % 10 ≠ 0 :=
  (trimCoefficient_coefficient d.coefficient d.exponent).2.resolve_left (trimmed_coefficient_ne_zero hne)

/-- Of two decimals with one value, the one that does not end in a zero has the larger exponent. -/
theorem exponent_le_of_value_eq (hend : d.coefficient % 10 ≠ 0) (h : d.value = d'.value) :
    d'.exponent ≤ d.exponent := by
  by_contra hlt
  obtain ⟨n, hn⟩ := Int.le.dest (Int.add_one_le_of_lt (not_le.1 hlt))
  have hpos := zpow_ten_pos d.exponent
  have hcoefficient : (d.coefficient : ℚ) = (d'.coefficient * 10 ^ n * 10 : ℕ) := by
    apply mul_right_cancel₀ hpos.ne'
    rw [value, value, ← hn, zpow_add₀ (by norm_num), zpow_add_one₀ (by norm_num), zpow_natCast] at h
    rw [h]
    push_cast
    ring
  have hten : d.coefficient = d'.coefficient * 10 ^ n * 10 := by exact_mod_cast hcoefficient
  rw [hten, Nat.mul_mod_left] at hend
  exact hend rfl

/-- A trimmed decimal is determined by its value. -/
theorem trimmed_eq_of_value_eq (hne : d.coefficient ≠ 0) (h : d.value = d'.value) : d.trimmed = d'.trimmed := by
  have hne' : d'.coefficient ≠ 0 := by
    rw [Ne, ← value_eq_zero_iff, ← h, value_eq_zero_iff]
    exact hne
  have hvalue : d.trimmed.value = d'.trimmed.value := by rw [value_trimmed, value_trimmed, h]
  have hexponent : d.trimmed.exponent = d'.trimmed.exponent :=
    Int.le_antisymm (exponent_le_of_value_eq (trimmed_coefficient_mod_ten hne') hvalue.symm)
      (exponent_le_of_value_eq (trimmed_coefficient_mod_ten hne) hvalue)
  have hcoefficient : d.trimmed.coefficient = d'.trimmed.coefficient := by
    rw [value, value, hexponent] at hvalue
    exact_mod_cast mul_right_cancel₀ (zpow_ten_pos _).ne' hvalue
  revert hcoefficient hexponent
  cases d.trimmed
  cases d'.trimmed
  rintro rfl rfl
  rfl

end Trimmed

end Decimal

namespace Binary64

open Decimal (digitCount)

/-- The first digit of a fraction stands at its logarithm. -/
theorem leading_eq_log {numerator denominator : Nat} (hn : numerator ≠ 0) (hd : denominator ≠ 0) :
    leading numerator denominator = Int.log 10 (numerator / denominator : ℚ) := by
  have hdpos : (0 : ℚ) < denominator := Nat.cast_pos.2 (Nat.pos_of_ne_zero hd)
  have hnlow := Decimal.zpow_digitCount_sub_one_le hn
  have hnhigh := Decimal.lt_zpow_digitCount numerator
  have hdlow := Decimal.zpow_digitCount_sub_one_le hd
  have hdhigh := Decimal.lt_zpow_digitCount denominator
  unfold leading
  simp only
  generalize hestimate : (digitCount numerator : ℤ) - digitCount denominator = estimate
  have hbelow : (10 : ℚ) ^ (estimate - 1) ≤ numerator / denominator := by
    rw [le_div_iff₀ hdpos]
    calc (10 : ℚ) ^ (estimate - 1) * denominator
        ≤ 10 ^ (estimate - 1) * 10 ^ (digitCount denominator : ℤ) := by gcongr
      _ = 10 ^ ((digitCount numerator : ℤ) - 1) := by
          rw [← zpow_add₀ (by norm_num), ← hestimate]
          congr 1
          ring
      _ ≤ numerator := hnlow
  have habove : (numerator / denominator : ℚ) < 10 ^ (estimate + 1) := by
    rw [div_lt_iff₀ hdpos]
    calc (numerator : ℚ) < 10 ^ (digitCount numerator : ℤ) := hnhigh
      _ = 10 ^ (estimate + 1) * 10 ^ ((digitCount denominator : ℤ) - 1) := by
          rw [← zpow_add₀ (by norm_num), ← hestimate]
          congr 1
          ring
      _ ≤ 10 ^ (estimate + 1) * denominator := by gcongr
  have hcondition : denominator * Decimal.tenTo estimate.toNat ≤ numerator * Decimal.tenTo (-estimate).toNat ↔
      (10 : ℚ) ^ estimate ≤ numerator / denominator := by
    rw [← Decimal.tenTo_div_tenTo, div_le_div_iff₀ (Decimal.tenTo_pos _) hdpos, mul_comm (Decimal.tenTo _ : ℚ)]
    exact_mod_cast Iff.rfl
  split
  next h => exact eq_log (hcondition.1 h) habove
  next h =>
    apply eq_log hbelow
    rw [sub_add_cancel, ← not_le]
    exact mt hcondition.2 h

section Places

variable (numerator denominator : Nat) (place : Int)

theorem inPlaces_div : ((inPlaces numerator denominator place).1 : ℚ) / (inPlaces numerator denominator place).2 =
    numerator / denominator / 10 ^ place := by
  rw [inPlaces, ← Decimal.tenTo_div_tenTo]
  push_cast
  rw [div_div_eq_mul_div, div_mul_eq_mul_div, div_div, mul_comm (denominator : ℚ)]

/-- A fraction lies between the two multiples of a power of ten that are tried. -/
theorem inPlaces_bounds :
    (((inPlaces numerator denominator place).1 / (inPlaces numerator denominator place).2 : ℕ) : ℚ) ≤
        numerator / denominator / 10 ^ place ∧
      (numerator / denominator / 10 ^ place : ℚ) <
        ((inPlaces numerator denominator place).1 / (inPlaces numerator denominator place).2 : ℕ) + 1 := by
  rw [← inPlaces_div, ← Nat.floor_div_eq_div (K := ℚ)]
  exact ⟨Nat.floor_le (by positivity), Nat.lt_floor_add_one _⟩

end Places

/-! ### Neighbours -/

/-- A magnitude is at most `2 ^ 53` times as far from zero as from the next smaller one. -/
theorem value_succ_le (k : Nat) : value (k + 1) ≤ 2 ^ 53 * (value (k + 1) - value k) := by
  have hunits : (units k : ℚ) = significand k * 2 ^ scale k := by
    rw [units, Nat.shiftLeft_eq]
    push_cast
    rfl
  have hsucc : (units (k + 1) : ℚ) = (significand k + 1) * 2 ^ scale k := by
    rw [units_succ]
    push_cast
    rw [hunits]
    ring
  have hlt : (significand k : ℚ) + 1 ≤ 2 ^ 53 := by exact_mod_cast significand_lt k
  have hpos : (0 : ℚ) < 2 ^ depth := by positivity
  rw [value, value, ← sub_div, ← mul_div_assoc, hsucc, hunits]
  apply div_le_div_of_nonneg_right _ hpos.le
  calc ((significand k : ℚ) + 1) * 2 ^ scale k ≤ 2 ^ 53 * 2 ^ scale k := by gcongr
    _ = 2 ^ 53 * ((significand k + 1) * 2 ^ scale k - significand k * 2 ^ scale k) := by ring

/-- What is close enough to a magnitude is read as this magnitude. -/
theorem isNearest_of_abs_sub_lt {q : ℚ} {k : Nat} (hk : k < infinite) (h : 2 ^ 54 * |q - value k| < value k) :
    IsNearest q k := by
  rcases le_total (value k) q with hle | hle
  · have habs : |q - value k| = q - value k := abs_of_nonneg (by linarith)
    have hgap := value_succ_le k
    have hlt : value k < value (k + 1) := value_strictMono (Nat.lt_succ_self k)
    apply isNearest_left hk hle
    · linarith
    · intro htie
      linarith
  · have habs : |q - value k| = value k - q := by rw [abs_sub_comm, abs_of_nonneg (by linarith)]
    obtain ⟨j, rfl⟩ : ∃ j, k = j + 1 := by
      apply Nat.exists_eq_succ_of_ne_zero
      rintro rfl
      rw [value_zero] at h
      have hnonneg := abs_nonneg (q - 0)
      linarith
    have hgap := value_succ_le j
    apply isNearest_right hk.le hle
    · linarith
    · intro htie
      linarith

section Search

variable {k : Nat} {place : Int}

/-- The two multiples of `10 ^ place` around the magnitude at ordinal `k`, in these multiples. -/
theorem inPlaces_fraction_bounds (k : Nat) (place : Int) :
    (((inPlaces (fraction k).1 (fraction k).2 place).1 / (inPlaces (fraction k).1 (fraction k).2 place).2 : ℕ) : ℚ) *
        10 ^ place ≤ value k ∧
      value k < (((inPlaces (fraction k).1 (fraction k).2 place).1 /
        (inPlaces (fraction k).1 (fraction k).2 place).2 : ℕ) + 1) * 10 ^ place := by
  have hpos := zpow_ten_pos place
  have hbounds := inPlaces_bounds (fraction k).1 (fraction k).2 place
  rwa [← value_eq_fraction, le_div_iff₀ hpos, div_lt_iff₀ hpos] at hbounds

theorem leading_fraction (hzero : k ≠ 0) : leading (fraction k).1 (fraction k).2 = Int.log 10 (value k) := by
  have hpos := value_pos hzero
  rw [value_eq_fraction] at hpos ⊢
  apply leading_eq_log _ (fraction_snd_pos k).ne'
  intro hfst
  rw [hfst, Nat.cast_zero, zero_div] at hpos
  exact lt_irrefl _ hpos

/-- Multiples that lie densely enough have one that is read as the magnitude. -/
theorem neighbour?_ne_none (hk : k < infinite) (hplace : 2 ^ 53 * 10 ^ place < value k) :
    neighbour? k place ≠ none := by
  obtain ⟨hlow, hhigh⟩ := inPlaces_fraction_bounds k place
  unfold neighbour?
  simp only
  generalize inPlaces (fraction k).1 (fraction k).2 place = inUnits at hlow hhigh
  generalize inUnits.1 / inUnits.2 = m at hlow hhigh
  have hread : (Decimal.mk m place).ordinal = k ∨ (Decimal.mk (m + 1) place).ordinal = k := by
    rcases le_total (value k - m * 10 ^ place) (10 ^ place / 2) with hnear | hfar
    · left
      apply (Decimal.isNearest_ordinal _).unique
      apply isNearest_of_abs_sub_lt hk
      have hvalue : (Decimal.mk m place).value = m * 10 ^ place := rfl
      rw [hvalue, abs_sub_comm, abs_of_nonneg (by linarith)]
      linarith
    · right
      apply (Decimal.isNearest_ordinal _).unique
      apply isNearest_of_abs_sub_lt hk
      have hvalue : (Decimal.mk (m + 1) place).value = (m + 1) * 10 ^ place := by
        rw [Decimal.value, Nat.cast_add, Nat.cast_one]
      rw [hvalue, abs_of_nonneg (by linarith)]
      linarith
  rcases hread with hbelow | habove
  · rw [if_pos hbelow]
    split <;> exact Option.some_ne_none _
  · split
    · split <;> exact Option.some_ne_none _
    · exact Option.some_ne_none _

theorem coefficient_le_of_neighbour? {d : Decimal} {n : Nat} (h : neighbour? k place = some d)
    (hvalue : value k < 10 ^ (place + n)) : d.coefficient ≤ 10 ^ n := by
  have hpos := zpow_ten_pos place
  obtain ⟨hlow, -⟩ := inPlaces_fraction_bounds k place
  unfold neighbour? at h
  simp only at h
  generalize inPlaces (fraction k).1 (fraction k).2 place = inUnits at h hlow
  have hlt : inUnits.1 / inUnits.2 < 10 ^ n := by
    rw [zpow_add₀ (by norm_num), zpow_natCast, mul_comm] at hvalue
    have hmul := lt_of_mul_lt_mul_right (hlow.trans_lt hvalue) hpos.le
    exact_mod_cast hmul
  have hcases : d.coefficient = inUnits.1 / inUnits.2 ∨ d.coefficient = inUnits.1 / inUnits.2 + 1 := by
    split at h
    · split at h <;> cases h
      · exact .inr rfl
      · exact .inl rfl
    · split at h <;> cases h
      exact .inr rfl
  omega

/-- The shortest decimal of a magnitude has seventeen digits at most. -/
theorem digitCount_shortest_le (hk : k < infinite) : digitCount (shortest k).coefficient ≤ 17 := by
  unfold shortest
  split
  next => decide
  next hzero =>
    have hpos := value_pos hzero
    have hlow : (10 : ℚ) ^ Int.log 10 (value k) ≤ value k := by
      exact_mod_cast Int.zpow_log_le_self (by norm_num) hpos
    have hhigh : value k < 10 ^ (Int.log 10 (value k) + 1) := by
      exact_mod_cast Int.lt_zpow_succ_log_self (by norm_num) (value k)
    simp only [leading_fraction hzero]
    split
    next d h =>
      obtain ⟨i, hi, hfound⟩ := List.exists_of_findSome?_eq_some h
      rw [List.mem_range] at hi
      apply Decimal.digitCount_trimmed_le (by norm_num)
      have hle := coefficient_le_of_neighbour? (n := i + 1) hfound (by
        have hexponent : Int.log 10 (value k) - i + ((i + 1 : ℕ) : ℤ) = Int.log 10 (value k) + 1 := by
          push_cast
          ring
        rwa [hexponent])
      exact hle.trans (Nat.pow_le_pow_right (by norm_num) hi)
    next h =>
      -- the search cannot fail, since it would fail at the last place
      exfalso
      have hlast := List.findSome?_eq_none_iff.1 h 16 (by decide)
      apply neighbour?_ne_none hk _ hlast
      calc (2 : ℚ) ^ 53 * 10 ^ (Int.log 10 (value k) - (16 : ℕ))
          < 10 ^ 16 * 10 ^ (Int.log 10 (value k) - (16 : ℕ)) := by
            apply mul_lt_mul_of_pos_right (by norm_num)
            exact zpow_ten_pos _
        _ = 10 ^ Int.log 10 (value k) := by
            rw [← zpow_natCast (10 : ℚ) 16, ← zpow_add₀ (by norm_num), add_sub_cancel]
        _ ≤ value k := hlow

end Search

end Binary64

end DeskCalc
