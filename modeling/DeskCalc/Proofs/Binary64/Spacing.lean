import DeskCalc.Binary64.Rounded
import DeskCalc.Proofs.Binary64.Shortest

/-!
How far doubles lie apart. Below `2 ^ 52` multiples of a step no two neighbouring multiples of a power of ten are read
as one double: a double is at least `2 ^ 52` times as large as the way to the next one, and so this way is shorter than
the step. A decimal that is the only multiple of its power of ten to be read as its double is the shortest one of this
double, since what is found with fewer places would be such a multiple, too.
-/

namespace DeskCalc

namespace Binary64

variable {j k : Nat} {q q' : ℚ}

/-! ### The way from a double to the next -/

theorem value_succ_sub (k : Nat) : value (k + 1) - value k = 2 ^ scale k / 2 ^ depth := by
  rw [value, value, units_succ, ← sub_div]
  push_cast
  rw [add_sub_cancel_left]

theorem value_one : value 1 = 1 / 2 ^ depth := by
  have hunits : units 1 = 1 := by decide
  rw [value, hunits, Nat.cast_one]

theorem value_one_lt : value 1 < 10 ^ (-16 : ℤ) := by
  have hpow : (10 : ℚ) ^ 16 < 2 ^ depth := by
    calc (10 : ℚ) ^ 16 < 2 ^ 54 := by norm_num
      _ ≤ 2 ^ depth := pow_le_pow_right₀ (by norm_num) (by decide)
  rw [value_one, zpow_neg, ← one_div]
  exact one_div_lt_one_div_of_lt (by positivity) (by exact_mod_cast hpow)

/-- Small doubles are one unit apart, and others at most one part in `2 ^ 52`. -/
theorem value_succ_sub_cases (k : Nat) :
    value (k + 1) - value k = value 1 ∨ 2 ^ 52 * (value (k + 1) - value k) ≤ value k := by
  rw [value_succ_sub]
  rcases scale_eq_zero_or_le_significand k with hzero | hlarge
  · left
    rw [hzero, pow_zero, value_one]
  · right
    have hbinade : (2 : ℚ) ^ 52 ≤ significand k := by exact_mod_cast hlarge
    rw [value, units, Nat.shiftLeft_eq, ← mul_div_assoc]
    push_cast
    gcongr

theorem value_succ_sub_mono (h : j ≤ k) : value (j + 1) - value j ≤ value (k + 1) - value k := by
  have hscale : scale j ≤ scale k := Nat.sub_le_sub_right (Nat.div_le_div_right h) 1
  rw [value_succ_sub, value_succ_sub]
  gcongr
  norm_num

namespace IsNearest

/-- The doubles above the nearest one lie above the number. -/
theorem le_value (h : IsNearest q j) (hlt : j < k) (hk : k ≤ infinite) : q ≤ value k := by
  by_contra hnot
  have hvalue := value_strictMono hlt
  have hdistance := h.distance_le k hk
  rw [abs_of_pos (by linarith), abs_of_pos (by linarith)] at hdistance
  linarith

/-- The doubles below the nearest one lie below the number. -/
theorem value_le (h : IsNearest q k) (hlt : j < k) : value j ≤ q := by
  by_contra hnot
  have hvalue := value_strictMono hlt
  have hdistance := h.distance_le j (hlt.le.trans h.le_infinite)
  rw [abs_of_neg (by linarith), abs_of_neg (by linarith)] at hdistance
  linarith

/-- Of a larger number the nearest double is not smaller. -/
theorem mono (hj : IsNearest q j) (hk : IsNearest q' k) (h : q ≤ q') : j ≤ k := by
  by_contra hlt
  have hlow := hj.value_le (Nat.lt_of_not_le hlt)
  have hhigh := hk.le_value (Nat.lt_of_not_le hlt) hj.le_infinite
  have hleft := hj.distance_le k hk.le_infinite
  have hright := hk.distance_le j hj.le_infinite
  -- both lie between the two doubles, and the smaller one is no nearer to the lower one than the larger one is
  rw [abs_of_nonneg (by linarith : 0 ≤ q - value k), abs_sub_comm] at hleft
  rw [abs_of_nonneg (by linarith : 0 ≤ q' - value k), abs_sub_comm] at hright
  rw [abs_of_nonneg (by linarith)] at hleft hright
  obtain rfl : q = q' := by linarith
  exact hlt (hj.unique hk).le

/-- A number is at most half the way to the next double away from the nearest one. -/
theorem two_mul_abs_sub_le (h : IsNearest q k) (hq : 0 ≤ q) (hk : k < infinite) :
    2 * |q - value k| ≤ value (k + 1) - value k := by
  rcases le_total (value k) q with hle | hle
  · have hnext := h.le_value (Nat.lt_succ_self k) hk
    have hdistance := h.distance_le (k + 1) hk
    rw [abs_sub_comm q (value (k + 1)), abs_of_nonneg (by linarith : 0 ≤ value (k + 1) - q)] at hdistance
    rw [abs_of_nonneg (by linarith)] at hdistance ⊢
    linarith
  · rw [abs_sub_comm, abs_of_nonneg (by linarith)]
    cases k with
    | zero =>
        have hpos := value_strictMono Nat.zero_lt_one
        rw [value_zero] at hle hpos ⊢
        linarith
    | succ j =>
        have hlow := h.value_le (Nat.lt_succ_self j)
        have hdistance := h.distance_le j (by omega)
        have hmono := value_succ_sub_mono (Nat.le_succ j)
        rw [abs_sub_comm, abs_of_nonneg (by linarith), abs_of_nonneg (by linarith)] at hdistance
        linarith

end IsNearest

theorem value_wholeFrom : value wholeFrom = 2 ^ 52 := by
  have hsum : wholeFrom = depth * binade + binade := by decide
  rw [value, hsum, units_step_mul_add (by decide) (.inr (Nat.le_refl _))]
  push_cast
  rw [mul_div_cancel_right₀ _ (by positivity)]
  norm_num [binade]

end Binary64

open Binary64 (IsNearest)

namespace Decimal

variable {d d' : Decimal}

theorem ordinal_mono (h : d.value ≤ d'.value) : d.ordinal ≤ d'.ordinal :=
  d.isNearest_ordinal.mono d'.isNearest_ordinal h

theorem ordinal_lt_infinite (h : d.value ≤ 2 ^ 52) : d.ordinal < Binary64.infinite := by
  rw [← Binary64.value_wholeFrom] at h
  exact (d.isNearest_ordinal.mono (Binary64.isNearest_value (by decide)) h).trans_lt (by decide)

/-! ### Neighbouring multiples of a power of ten -/

section Steps

variable {n places : Nat} {place : Int}

theorem value_mk_succ (n : Nat) (place : Int) : (mk (n + 1) place).value = (mk n place).value + 10 ^ place := by
  rw [value, value, Nat.cast_succ, add_mul, one_mul]

theorem value_mk_le (hn : n ≤ 2 ^ 52) (hhigh : place ≤ 0) : (mk n place).value ≤ 2 ^ 52 := by
  have hcoefficient : (n : ℚ) ≤ 2 ^ 52 := by exact_mod_cast hn
  have hone : (10 : ℚ) ^ place ≤ 1 := zpow_le_one_of_nonpos₀ (by norm_num) hhigh
  calc (n : ℚ) * 10 ^ place ≤ 2 ^ 52 * 1 := by gcongr
    _ = 2 ^ 52 := mul_one _

theorem ordinal_le_ordinal_succ (n : Nat) (place : Int) : (mk n place).ordinal ≤ (mk (n + 1) place).ordinal := by
  have hpos := zpow_ten_pos place
  apply ordinal_mono
  rw [value_mk_succ]
  linarith

theorem ordinal_lt_ordinal_succ (hn : n < 2 ^ 52) (hlow : -16 ≤ place) (hhigh : place ≤ 0) :
    (mk n place).ordinal < (mk (n + 1) place).ordinal := by
  by_contra hnot
  have heq := le_antisymm (Nat.not_lt.1 hnot) (ordinal_le_ordinal_succ n place)
  have hpos := zpow_ten_pos place
  have hcoefficient : (n : ℚ) + 1 ≤ 2 ^ 52 := by exact_mod_cast hn
  have hvalue : (mk n place).value = n * 10 ^ place := rfl
  have hnonneg : 0 ≤ (mk n place).value := by rw [hvalue]; positivity
  have hfinite := ordinal_lt_infinite (value_mk_le hn.le hhigh)
  have hbelow := (isNearest_ordinal (mk n place)).two_mul_abs_sub_le hnonneg hfinite
  have habove := (isNearest_ordinal (mk (n + 1) place)).two_mul_abs_sub_le
    (by rw [value_mk_succ]; linarith) (heq ▸ hfinite)
  rw [heq, value_mk_succ] at habove
  generalize (mk n place).ordinal = k at *
  rw [hvalue] at hbelow habove
  have hleft := neg_abs_le (n * 10 ^ place - Binary64.value k)
  have hright := le_abs_self (n * 10 ^ place + 10 ^ place - Binary64.value k)
  -- one double is nearest to both, so that the step is no longer than the way to the next one
  have hstep : 10 ^ place ≤ Binary64.value (k + 1) - Binary64.value k := by linarith
  rcases Binary64.value_succ_sub_cases k with hunit | hwide
  · have hten : (10 : ℚ) ^ (-16 : ℤ) ≤ 10 ^ place := zpow_le_zpow_right₀ (by norm_num) hlow
    linarith [Binary64.value_one_lt]
  · have hmul : (n : ℚ) * 10 ^ place ≤ (2 ^ 52 - 1) * (Binary64.value (k + 1) - Binary64.value k) := by
      gcongr
      linarith
    linarith

/-- The multiple after the last one may be farther from it than the next double, but is not read as the same. -/
theorem ordinal_lt_ordinal_succ_of_le (hn : n ≤ 2 ^ 52) (hplaces : places ≤ 15) :
    (mk n (-places)).ordinal < (mk (n + 1) (-places)).ordinal := by
  rcases hn.lt_or_eq with hlt | rfl
  · exact ordinal_lt_ordinal_succ hlt (by omega) (by omega)
  · have hall : ∀ places : Fin 16, (mk (2 ^ 52) (-(places : Nat))).ordinal <
        (mk (2 ^ 52 + 1) (-(places : Nat))).ordinal := by decide +kernel
    exact hall ⟨places, by omega⟩

end Steps

/-! ### Sole multiples -/

/-- No other multiple of the same power of ten is read as the same double. -/
def IsSole (d : Decimal) : Prop := ∀ c, (mk c d.exponent).ordinal = d.ordinal → c = d.coefficient

theorem isSole_of_lt {n : Nat} {place : Int} (hbelow : (mk n place).ordinal < (mk (n + 1) place).ordinal)
    (habove : (mk (n + 1) place).ordinal < (mk (n + 2) place).ordinal) : (mk (n + 1) place).IsSole := by
  have hpos := zpow_ten_pos place
  have hmono : Monotone fun c => (mk c place).ordinal :=
    monotone_nat_of_le_succ fun c => ordinal_le_ordinal_succ c place
  intro c hc
  rcases Nat.lt_trichotomy c (n + 1) with hlt | heq | hgt
  · have hle : (mk c place).ordinal ≤ (mk n place).ordinal := hmono (Nat.le_of_lt_succ hlt)
    exact absurd hc (hle.trans_lt hbelow).ne
  · exact heq
  · have hle : (mk (n + 2) place).ordinal ≤ (mk c place).ordinal := hmono hgt
    exact absurd hc (habove.trans_le hle).ne'

namespace IsSole

theorem ordinal_ne_zero (h : d.IsSole) (hne : d.coefficient ≠ 0) : d.ordinal ≠ 0 := by
  intro hzero
  have hnone : (mk 0 d.exponent).ordinal = 0 := if_pos rfl
  exact hne (h 0 (hnone.trans hzero.symm)).symm

/-- It is found at its own place. -/
theorem neighbour? (h : d.IsSole) (hfinite : d.ordinal < Binary64.infinite) :
    Binary64.neighbour? d.ordinal d.exponent = some d := by
  have hpos := zpow_ten_pos d.exponent
  obtain ⟨hlow, hhigh⟩ := Binary64.inPlaces_fraction_bounds d.ordinal d.exponent
  have hread := Binary64.isNearest_value hfinite.le
  unfold Binary64.neighbour?
  simp only
  generalize Binary64.inPlaces (Binary64.fraction d.ordinal).1 (Binary64.fraction d.ordinal).2 d.exponent = inUnits
    at hlow hhigh ⊢
  generalize inUnits.1 / inUnits.2 = m at hlow hhigh ⊢
  rcases le_or_gt d.value (Binary64.value d.ordinal) with hle | hlt
  · have hcoefficient : d.coefficient < m + 1 := by
      have hmul := lt_of_mul_lt_mul_right (hle.trans_lt hhigh) hpos.le
      exact_mod_cast hmul
    have hbelow : (mk m d.exponent).ordinal = d.ordinal := by
      apply le_antisymm ((isNearest_ordinal (mk m d.exponent)).mono hread hlow)
      apply ordinal_mono
      exact mul_le_mul_of_nonneg_right (Nat.cast_le.2 (Nat.le_of_lt_succ hcoefficient)) hpos.le
    have habove : (mk (m + 1) d.exponent).ordinal ≠ d.ordinal := by
      intro heq
      have hm := h m hbelow
      have hsucc := h (m + 1) heq
      omega
    rw [if_pos hbelow, if_neg fun hboth => habove hboth.1, h m hbelow]
  · have hcoefficient : m < d.coefficient := by
      have hmul := lt_of_mul_lt_mul_right (hlow.trans_lt hlt) hpos.le
      exact_mod_cast hmul
    have habove : (mk (m + 1) d.exponent).ordinal = d.ordinal := by
      apply le_antisymm
      · apply ordinal_mono
        exact mul_le_mul_of_nonneg_right (Nat.cast_le.2 hcoefficient) hpos.le
      · apply hread.mono (isNearest_ordinal _)
        rw [value, Nat.cast_succ]
        exact hhigh.le
    have hbelow : (mk m d.exponent).ordinal ≠ d.ordinal := by
      intro heq
      have hm := h m heq
      omega
    rw [if_neg hbelow, if_pos habove, h (m + 1) habove]

/-- What is found with fewer places is the same number. -/
theorem value_eq_of_neighbour? (h : d.IsSole) {place : Int} (hplace : d.exponent ≤ place)
    (hfound : Binary64.neighbour? d.ordinal place = some d') : d'.value = d.value := by
  obtain ⟨i, rfl⟩ := Int.le.dest hplace
  have hexponent := Binary64.exponent_of_neighbour? hfound
  have hvalue : d'.value = (mk (d'.coefficient * 10 ^ i) d.exponent).value := by
    rw [value, value, hexponent, zpow_add₀ (by norm_num), zpow_natCast]
    push_cast
    ring
  have hread : (mk (d'.coefficient * 10 ^ i) d.exponent).ordinal = d.ordinal := by
    rw [← ordinal_congr hvalue]
    exact Binary64.ordinal_of_neighbour? hfound
  rw [hvalue, h _ hread]

/-- It is the shortest decimal, if its place is among those that are tried. -/
theorem shortest (h : d.IsSole) (hne : d.coefficient ≠ 0) (hfinite : d.ordinal < Binary64.infinite)
    (hlow : d.exponent ≤ Int.log 10 (Binary64.value d.ordinal))
    (hhigh : Int.log 10 (Binary64.value d.ordinal) ≤ d.exponent + 16) :
    Binary64.shortest d.ordinal = d.trimmed := by
  obtain ⟨i, hi⟩ := Int.le.dest hlow
  have hrange : List.range 17 = List.range (i + 1) ++ (List.range (16 - i)).map (i + 1 + ·) := by
    rw [← List.range_add]
    congr 1
    omega
  have hplace : Int.log 10 (Binary64.value d.ordinal) - i = d.exponent := by omega
  have hown : Binary64.neighbour? d.ordinal (Int.log 10 (Binary64.value d.ordinal) - i) = some d := by
    rw [hplace]
    exact h.neighbour? hfinite
  -- the search ends at this place or before it
  obtain ⟨d', hd'⟩ : ∃ d', (List.range (i + 1)).findSome? (fun i : Nat =>
      Binary64.neighbour? d.ordinal (Int.log 10 (Binary64.value d.ordinal) - i)) = some d' := by
    apply Option.isSome_iff_exists.1
    rw [List.findSome?_isSome_iff]
    exact ⟨i, List.mem_range.2 (Nat.lt_succ_self i), by rw [hown]; rfl⟩
  obtain ⟨i', hi', hfound⟩ := List.exists_of_findSome?_eq_some hd'
  rw [List.mem_range] at hi'
  have hvalue := h.value_eq_of_neighbour? (by omega) hfound
  have hzero := h.ordinal_ne_zero hne
  rw [Binary64.shortest, if_neg hzero]
  simp only [Binary64.leading_fraction hzero]
  rw [hrange, List.findSome?_append, hd']
  exact (trimmed_eq_of_value_eq hne hvalue.symm).symm

end IsSole

section Shortest

variable {n places : Nat} {place : Int}

/-- The first digit of a multiple that is read as another double than the one before it and the one after it stands
among the places that are tried. -/
theorem shortest_of_lt (hn : n ≠ 0) (hcount : n + 2 < 10 ^ 17)
    (hbelow : (mk n place).ordinal < (mk (n + 1) place).ordinal)
    (habove : (mk (n + 1) place).ordinal < (mk (n + 2) place).ordinal)
    (hfinite : (mk (n + 1) place).ordinal < Binary64.infinite) :
    Binary64.shortest (mk (n + 1) place).ordinal = (mk (n + 1) place).trimmed := by
  have hten := zpow_ten_pos place
  have hsole := isSole_of_lt hbelow habove
  have hpos := Binary64.value_pos (hsole.ordinal_ne_zero (Nat.succ_ne_zero n))
  have hlow := (isNearest_ordinal (mk n place)).le_value hbelow hfinite.le
  have hhigh := (isNearest_ordinal (mk (n + 2) place)).value_le habove
  apply hsole.shortest (Nat.succ_ne_zero n) hfinite
  · apply (Int.zpow_le_iff_le_log (by norm_num) hpos).1
    have hone : (1 : ℚ) ≤ n := by exact_mod_cast Nat.one_le_iff_ne_zero.2 hn
    calc ((10 : ℕ) : ℚ) ^ place = 1 * 10 ^ place := by rw [one_mul, Nat.cast_ofNat]
      _ ≤ n * 10 ^ place := by gcongr
      _ ≤ _ := hlow
  · apply Int.lt_add_one_iff.1
    apply (Int.lt_zpow_iff_log_lt (by norm_num) hpos).1
    calc _ ≤ ((n + 2 : ℕ) : ℚ) * 10 ^ place := hhigh
      _ < ((10 ^ 17 : ℕ) : ℚ) * 10 ^ place := mul_lt_mul_of_pos_right (Nat.cast_lt.2 hcount) hten
      _ = ((10 : ℕ) : ℚ) ^ (place + 16 + 1) := by
          rw [Nat.cast_ofNat]
          exact pow_mul_zpow_ten (by omega)

/-- A number of at most fifteen places, and of at most `2 ^ 52` times the last of them, is the shortest decimal of its
double. -/
theorem shortest_ordinal (hn : n ≤ 2 ^ 52) (hplaces : places ≤ 15) :
    (Binary64.shortest (mk n (-places)).ordinal).value = (mk n (-places)).value ∧
      -(places : ℤ) ≤ (Binary64.shortest (mk n (-places)).ordinal).exponent := by
  have htrimmed : ∀ d : Decimal, d.coefficient ≠ 0 → d.value = (mk n (-places)).value →
      d.trimmed.value = (mk n (-places)).value ∧ -(places : ℤ) ≤ d.trimmed.exponent := by
    intro d hne hvalue
    have hsame : d.trimmed.value = (mk n (-places)).value := d.value_trimmed.trans hvalue
    exact ⟨hsame, exponent_le_of_value_eq (trimmed_coefficient_mod_ten hne) hsame⟩
  match n with
  | 0 =>
      have hzero : (mk 0 (-places)).ordinal = 0 := if_pos rfl
      rw [hzero]
      exact ⟨by simp [Binary64.shortest, value], by simp [Binary64.shortest]⟩
  | 1 =>
      -- its first digit may stand one place farther to the right in the double
      have hvalue : (mk 10 (-places - 1)).value = (mk 1 (-places)).value := by
        rw [value, value, zpow_sub_one₀ (by norm_num)]
        push_cast
        ring
      have hfinite : (mk 10 (-places - 1)).ordinal < Binary64.infinite :=
        ordinal_lt_infinite (value_mk_le (by norm_num) (by omega))
      have hbelow : (mk 9 (-places - 1)).ordinal < (mk 10 (-places - 1)).ordinal :=
        ordinal_lt_ordinal_succ (by norm_num) (by omega) (by omega)
      have habove : (mk 10 (-places - 1)).ordinal < (mk 11 (-places - 1)).ordinal :=
        ordinal_lt_ordinal_succ (by norm_num) (by omega) (by omega)
      have hshortest := shortest_of_lt (n := 9) (by norm_num) (by norm_num) hbelow habove hfinite
      rw [← ordinal_congr hvalue, hshortest]
      exact htrimmed _ (by norm_num) hvalue
  | m + 2 =>
      have hfinite : (mk (m + 2) (-places)).ordinal < Binary64.infinite :=
        ordinal_lt_infinite (value_mk_le hn (by omega))
      rw [shortest_of_lt (Nat.succ_ne_zero m) (by omega)
        (ordinal_lt_ordinal_succ_of_le (by omega) hplaces) (ordinal_lt_ordinal_succ_of_le hn hplaces) hfinite]
      exact htrimmed _ (Nat.succ_ne_zero _) rfl

end Shortest

end Decimal

end DeskCalc
