import DeskCalc.Binary64.Rounded
import DeskCalc.Proofs.Binary64.Shortest

/-!
Rounding to significant digits. A number is rounded to a multiple of a power of ten, a half going to the even
multiple; for significant digits the power is read off the first digit of the number. The first digit of what comes
out may stand one place farther to the left, but then rounding once more at the place that follows from it changes
nothing. Seventeen digits are read as the double that they were taken from.
-/

namespace DeskCalc

/-- The number `r` is `q` rounded at a decimal place: a multiple of `10 ^ place` at most half of it away, and the even
one of two that are. -/
def IsRoundedAt (place : Int) (q r : ℚ) : Prop :=
  ∃ m : Nat, r = m * 10 ^ place ∧ |q - r| ≤ 10 ^ place / 2 ∧ (|q - r| = 10 ^ place / 2 → m % 2 = 0)

/-- The number `r` is `q` rounded to `count` significant digits, of which the first is the first digit of `q`. -/
def IsSignificant (count : Nat) (q r : ℚ) : Prop := IsRoundedAt (Int.log 10 q - count + 1) q r

namespace IsRoundedAt

variable {place : Int} {q r r' : ℚ}

theorem zero (place : Int) : IsRoundedAt place 0 0 := by
  have hpos := zpow_ten_pos place
  refine ⟨0, by simp, ?_, fun _ => rfl⟩
  rw [sub_zero, abs_zero]
  positivity

/-- The larger of two multiples is not rounded to where the smaller one is. -/
theorem le_of_abs_sub_le {m n : Nat} (hm : |q - m * 10 ^ place| ≤ 10 ^ place / 2)
    (hn : |q - n * 10 ^ place| ≤ 10 ^ place / 2) (hmeven : |q - m * 10 ^ place| = 10 ^ place / 2 → m % 2 = 0)
    (hneven : |q - n * 10 ^ place| = 10 ^ place / 2 → n % 2 = 0) : n ≤ m := by
  by_contra hlt
  have hpos := zpow_ten_pos place
  obtain ⟨d, rfl⟩ := Nat.exists_eq_add_of_lt (Nat.lt_of_not_le hlt)
  obtain ⟨-, hleft⟩ := abs_le.1 hm
  obtain ⟨hright, -⟩ := abs_le.1 hn
  have hd : (0 : ℚ) ≤ d * 10 ^ place := by positivity
  push_cast at hright hneven
  have hsum : (m + d + 1 : ℚ) * 10 ^ place = m * 10 ^ place + d * 10 ^ place + 10 ^ place := by ring
  -- both are at their half, and nothing lies between them
  have hzero : (d : ℚ) * 10 ^ place = 0 := by linarith
  have hd : d = 0 := by exact_mod_cast (mul_eq_zero.1 hzero).resolve_right hpos.ne'
  have hm : m % 2 = 0 := by
    apply hmeven
    rw [abs_of_nonneg (by linarith)]
    linarith
  have hn : (m + d + 1) % 2 = 0 := by
    apply hneven
    rw [abs_of_nonpos (by linarith)]
    linarith
  omega

/-- A number is rounded to one multiple only. -/
theorem unique (h : IsRoundedAt place q r) (h' : IsRoundedAt place q r') : r = r' := by
  obtain ⟨m, rfl, hm, hmeven⟩ := h
  obtain ⟨n, rfl, hn, hneven⟩ := h'
  rw [Nat.le_antisymm (le_of_abs_sub_le hn hm hneven hmeven) (le_of_abs_sub_le hm hn hmeven hneven)]

/-- Rounding does not pass a multiple. -/
theorem le_of_le {n : Nat} (h : IsRoundedAt place q r) (hn : n * 10 ^ place ≤ q) : n * 10 ^ place ≤ r := by
  have hpos := zpow_ten_pos place
  obtain ⟨m, rfl, hm, -⟩ := h
  have hle : n ≤ m := by
    by_contra hlt
    have hsucc : (m : ℚ) + 1 ≤ n := by exact_mod_cast Nat.lt_of_not_le hlt
    have hstep : ((m : ℚ) + 1) * 10 ^ place ≤ n * 10 ^ place := mul_le_mul_of_nonneg_right hsucc hpos.le
    obtain ⟨-, hhigh⟩ := abs_le.1 hm
    linarith
  exact mul_le_mul_of_nonneg_right (Nat.cast_le.2 hle) hpos.le

theorem ge_of_ge {n : Nat} (h : IsRoundedAt place q r) (hn : q ≤ n * 10 ^ place) : r ≤ n * 10 ^ place := by
  have hpos := zpow_ten_pos place
  obtain ⟨m, rfl, hm, -⟩ := h
  have hle : m ≤ n := by
    by_contra hlt
    have hsucc : (n : ℚ) + 1 ≤ m := by exact_mod_cast Nat.lt_of_not_le hlt
    have hstep : ((n : ℚ) + 1) * 10 ^ place ≤ m * 10 ^ place := mul_le_mul_of_nonneg_right hsucc hpos.le
    obtain ⟨hlow, -⟩ := abs_le.1 hm
    linarith
  exact mul_le_mul_of_nonneg_right (Nat.cast_le.2 hle) hpos.le

end IsRoundedAt

/-- The whole number that is chosen for a fraction is at most a half away, and even if it is a half away. -/
theorem roundHalfEven_distance {a b : Nat} (hb : 0 < b) :
    2 * |(a / b : ℚ) - roundHalfEven a b| ≤ 1 ∧
      (2 * |(a / b : ℚ) - roundHalfEven a b| = 1 → roundHalfEven a b % 2 = 0) := by
  have hbpos : (0 : ℚ) < b := Nat.cast_pos.2 hb
  have hquotient : (a / b : ℚ) = (a / b : ℕ) + (a % b : ℕ) / b := by
    rw [div_eq_iff hbpos.ne', add_mul, div_mul_cancel₀ _ hbpos.ne', mul_comm]
    exact_mod_cast (Nat.div_add_mod a b).symm
  have hnonneg : (0 : ℚ) ≤ (a % b : ℕ) / b := by positivity
  have hone : ((a % b : ℕ) / b : ℚ) ≤ 1 := (div_le_one hbpos).2 (Nat.cast_le.2 (Nat.mod_lt a hb).le)
  have hbelow : 2 * (a % b) ≤ b → 2 * ((a % b : ℕ) / b : ℚ) ≤ 1 := by
    intro h
    rw [← mul_div_assoc, div_le_one hbpos]
    exact_mod_cast h
  have habove : b ≤ 2 * (a % b) → 1 ≤ 2 * ((a % b : ℕ) / b : ℚ) := by
    intro h
    rw [← mul_div_assoc, one_le_div hbpos]
    exact_mod_cast h
  have htie : 2 * ((a % b : ℕ) / b : ℚ) = 1 → 2 * (a % b) = b := by
    intro h
    rw [← mul_div_assoc, div_eq_one_iff_eq hbpos.ne'] at h
    exact_mod_cast h
  rw [hquotient]
  rcases roundHalfEven_cases a b with ⟨hround, hle, heven⟩ | ⟨hround, hge, heven⟩
  · rw [hround, add_sub_cancel_left, abs_of_nonneg hnonneg]
    exact ⟨hbelow hle, fun h => heven (htie h)⟩
  · have hminus : ((a / b : ℕ) + (a % b : ℕ) / b - (a / b + 1 : ℕ) : ℚ) = -(1 - (a % b : ℕ) / b) := by
      push_cast
      ring
    have hpart := habove hge
    rw [hround, hminus, abs_neg, abs_of_nonneg (sub_nonneg.2 hone)]
    exact ⟨by linarith, fun h => heven (htie (by linarith))⟩

/-- The whole number that is chosen for a fraction is the fraction rounded. -/
theorem isRoundedAt_roundHalfEven {a b : Nat} (hb : 0 < b) {place : Int} {q : ℚ} (h : (a / b : ℚ) = q / 10 ^ place) :
    IsRoundedAt place q (roundHalfEven a b * 10 ^ place) := by
  have hpos := zpow_ten_pos place
  have hdistance : |q - roundHalfEven a b * 10 ^ place| = |(a / b : ℚ) - roundHalfEven a b| * 10 ^ place := by
    rw [h, ← abs_of_pos hpos, ← abs_mul, abs_of_pos hpos, sub_mul, div_mul_cancel₀ _ hpos.ne']
  obtain ⟨hhalf, heven⟩ := roundHalfEven_distance (a := a) hb
  refine ⟨_, rfl, ?_, ?_⟩
  · rw [hdistance, le_div_iff₀ (by norm_num)]
    calc |(a / b : ℚ) - roundHalfEven a b| * 10 ^ place * 2
        = 2 * |(a / b : ℚ) - roundHalfEven a b| * 10 ^ place := by ring
      _ ≤ 10 ^ place := mul_le_of_le_one_left hpos.le hhalf
  · intro htie
    rw [hdistance, eq_div_iff (by norm_num)] at htie
    apply heven
    apply mul_right_cancel₀ hpos.ne'
    linarith

namespace IsSignificant

variable {count : Nat} {q r : ℚ}

theorem unique {r' : ℚ} (h : IsSignificant count q r) (h' : IsSignificant count q r') : r = r' :=
  IsRoundedAt.unique h h'

theorem zero (count : Nat) : IsSignificant count 0 0 := IsRoundedAt.zero _

section Positive

variable (hq : 0 < q) (hcount : 0 < count) (h : IsSignificant count q r)
include hq hcount h

/-- What is rounded stays between the same powers of ten, or is the upper one. -/
theorem bounds : 10 ^ Int.log 10 q ≤ r ∧ r ≤ 10 ^ (Int.log 10 q + 1) := by
  have hlow : (10 : ℚ) ^ Int.log 10 q ≤ q := by exact_mod_cast Int.zpow_log_le_self (by norm_num) hq
  have hhigh : q < 10 ^ (Int.log 10 q + 1) := by exact_mod_cast Int.lt_zpow_succ_log_self (by norm_num) q
  have hfirst : ((10 ^ (count - 1) : ℕ) : ℚ) * 10 ^ (Int.log 10 q - count + 1) = 10 ^ Int.log 10 q :=
    pow_mul_zpow_ten (by omega)
  have hnext : ((10 ^ count : ℕ) : ℚ) * 10 ^ (Int.log 10 q - count + 1) = 10 ^ (Int.log 10 q + 1) :=
    pow_mul_zpow_ten (by omega)
  constructor
  · rw [← hfirst]
    exact IsRoundedAt.le_of_le h (hfirst.le.trans hlow)
  · rw [← hnext]
    exact IsRoundedAt.ge_of_ge h (hhigh.le.trans hnext.ge)

theorem pos : 0 < r := (zpow_ten_pos _).trans_le (bounds hq hcount h).1

/-- The first digit stays in its place, or what is rounded is the next power of ten. -/
theorem log_cases : Int.log 10 r = Int.log 10 q ∨ Int.log 10 r = Int.log 10 q + 1 ∧ r = 10 ^ Int.log 10 r := by
  obtain ⟨hlow, hhigh⟩ := bounds hq hcount h
  rcases hhigh.lt_or_eq with hlt | heq
  · exact .inl (eq_log hlow hlt).symm
  · have hlog : Int.log 10 q + 1 = Int.log 10 r := by
      apply eq_log heq.ge
      rw [heq]
      exact zpow_lt_zpow_right₀ (by norm_num) (lt_add_one _)
    exact .inr ⟨hlog.symm, by rw [← hlog, heq]⟩

/-- Rounding at the place that follows from the rounded number comes to the same number. -/
theorem isRoundedAt_log : IsRoundedAt (Int.log 10 r - count + 1) q r := by
  rcases log_cases hq hcount h with hsame | ⟨hnext, hpow⟩
  · rw [hsame]
    exact h
  · -- after a carry the place is ten times as wide, and the old distance is far below its half
    obtain ⟨-, -, hdistance, -⟩ := h
    have hten : (10 : ℚ) ^ (Int.log 10 r - count + 1) = 10 * 10 ^ (Int.log 10 q - count + 1) := by
      rw [← zpow_one_add₀ (by norm_num), hnext]
      congr 1
      ring
    have hpos := zpow_ten_pos (Int.log 10 q - count + 1)
    refine ⟨10 ^ (count - 1), ?_, ?_, ?_⟩
    · exact hpow.trans (pow_mul_zpow_ten (by omega)).symm
    · rw [hten]
      linarith
    · intro htie
      rw [hten] at htie
      linarith

end Positive

end IsSignificant

namespace Binary64

variable {k count : Nat}

theorem le_log_value (hk : k ≠ 0) : -331 ≤ Int.log 10 (value k) := by
  apply (Int.zpow_le_iff_le_log (by norm_num) (value_pos hk)).1
  exact_mod_cast le_value hk

/-- The magnitude at ordinal `k` rounded at a decimal place. -/
def roundedAt (k : Nat) (place : Int) : Decimal :=
  let inUnits := inPlaces (fraction k).1 (fraction k).2 place
  ⟨roundHalfEven inUnits.1 inUnits.2, place⟩

theorem isRoundedAt_roundedAt (k : Nat) (place : Int) : IsRoundedAt place (value k) (roundedAt k place).value := by
  apply isRoundedAt_roundHalfEven
  · exact Nat.mul_pos (fraction_snd_pos k) (Nat.pow_pos (by decide))
  · rw [inPlaces_div, value_eq_fraction]

theorem significant_eq_trimmed (hk : k ≠ 0) (hcount : count ≤ 17) :
    significant k count = (roundedAt k (Int.log 10 (value k) - count + 1)).trimmed := by
  have hplace : max (leading (fraction k).1 (fraction k).2 - count + 1) (-depth) =
      Int.log 10 (value k) - count + 1 := by
    have hlog := le_log_value hk
    rw [leading_fraction hk, max_eq_left]
    unfold depth
    omega
  rw [significant, if_neg hk]
  simp only [hplace]
  rfl

/-- The digits that are chosen for a magnitude are those of the rounded number. -/
theorem isSignificant_significant (k : Nat) (hcount : count ≤ 17) :
    IsSignificant count (value k) (significant k count).value := by
  by_cases hk : k = 0
  · have hzero : (significant 0 count).value = 0 := Decimal.value_eq_zero_iff.2 rfl
    rw [hk, value_zero, hzero]
    exact IsSignificant.zero count
  · rw [significant_eq_trimmed hk hcount, Decimal.value_trimmed]
    exact isRoundedAt_roundedAt k _

/-- Seventeen digits of a magnitude are read as this magnitude. -/
theorem isNearest_of_isSignificant {r : ℚ} (hk : k < infinite) (h : IsSignificant 17 (value k) r) :
    IsNearest r k := by
  by_cases hzero : k = 0
  · rw [hzero, value_zero] at h
    rw [h.unique (IsSignificant.zero 17), hzero, ← value_zero]
    exact isNearest_value (Nat.zero_le _)
  · have hpos := value_pos hzero
    have hlow : (10 : ℚ) ^ Int.log 10 (value k) ≤ value k := by
      exact_mod_cast Int.zpow_log_le_self (by norm_num) hpos
    obtain ⟨-, -, hdistance, -⟩ := h
    apply isNearest_of_abs_sub_lt hk
    rw [abs_sub_comm]
    calc 2 ^ 54 * |value k - r| ≤ 2 ^ 54 * (10 ^ (Int.log 10 (value k) - (17 : ℕ) + 1) / 2) := by gcongr
      _ = 2 ^ 53 * 10 ^ (Int.log 10 (value k) - (17 : ℕ) + 1) := by ring
      _ < 10 ^ 16 * 10 ^ (Int.log 10 (value k) - (17 : ℕ) + 1) := by
          apply mul_lt_mul_of_pos_right (by norm_num)
          exact zpow_ten_pos _
      _ = 10 ^ Int.log 10 (value k) := by
          rw [← zpow_natCast (10 : ℚ) 16, ← zpow_add₀ (by norm_num)]
          congr 1
          push_cast
          ring
      _ ≤ value k := hlow

end Binary64

end DeskCalc
