import DeskCalc.Proofs.Binary64.Significant
import DeskCalc.Proofs.Display.Number

/-!
Numbers that are rounded twice. A number with a given number of digits may be written in two steps: it is rounded to
these digits, and by the exponent of what comes out it is written scientifically, or rounded again at the place that
is then the last one and written positionally; after that the zeros at the end of a fraction are taken off the text.
Both roundings come to the same number, so that this is the text of a decimal that is rounded once and whose zeros
are trimmed.
-/

namespace DeskCalc

/-! ### Zeros taken off a text -/

/-- A text without the zeros at the end of its fraction, and without the point if no digit is left after it. -/
def withoutZeros (cs : List Char) : List Char :=
  if '.' ∈ cs then (cs.rdropWhile (· == '0')).rdropWhile (· == '.') else cs

section

variable {cs : List Char}

theorem withoutZeros_of_not_mem (h : '.' ∉ cs) : withoutZeros cs = cs := if_neg h

theorem withoutZeros_concat_zero (h : '.' ∈ cs) : withoutZeros (cs ++ ['0']) = withoutZeros cs := by
  rw [withoutZeros, if_pos (List.mem_append_left _ h), List.rdropWhile_concat_pos _ _ _ rfl, withoutZeros, if_pos h]

theorem withoutZeros_concat_point (h : '.' ∉ cs) : withoutZeros (cs ++ ['.']) = cs := by
  have hpoint : '.' ∈ cs ++ ['.'] := List.mem_append_right _ List.mem_cons_self
  rw [withoutZeros, if_pos hpoint, List.rdropWhile_concat_neg _ _ _ (by decide),
    List.rdropWhile_concat_pos _ _ _ rfl, List.rdropWhile_eq_self_iff]
  intro hne hlast
  exact h (eq_of_beq hlast ▸ List.getLast_mem hne)

theorem withoutZeros_eq_self {c : Char} (hlast : c ∈ cs.getLast?) (hzero : c ≠ '0') (hpoint : c ≠ '.') :
    withoutZeros cs = cs := by
  obtain ⟨init, rfl⟩ : ∃ init, cs = init ++ [c] := ⟨_, (List.dropLast_append_getLast? c hlast).symm⟩
  have hkeepzero : (init ++ [c]).rdropWhile (· == '0') = init ++ [c] :=
    List.rdropWhile_concat_neg _ _ _ (by simpa using hzero)
  have hkeeppoint : (init ++ [c]).rdropWhile (· == '.') = init ++ [c] :=
    List.rdropWhile_concat_neg _ _ _ (by simpa using hpoint)
  rw [withoutZeros, hkeepzero, hkeeppoint, ite_self]

end

namespace Decimal

variable {d : Decimal} {digits : List Char} {places : Nat}

theorem mem_pointed (digits : List Char) (places : Nat) : '.' ∈ pointed digits places := by
  unfold pointed
  split <;> simp

theorem pointed_concat (hne : digits ≠ []) (c : Char) (places : Nat) :
    pointed (digits ++ [c]) (places + 1) = pointed digits places ++ [c] := by
  have hlength := List.length_pos_iff.2 hne
  unfold pointed
  rw [List.length_append, List.length_singleton]
  by_cases h : places < digits.length
  · have hle : digits.length - places ≤ digits.length := Nat.sub_le _ _
    rw [if_pos h, if_pos (by omega), Nat.add_sub_add_right, List.take_append_of_le_length hle,
      List.drop_append_of_le_length hle]
    simp
  · rw [if_neg h, if_neg (by omega), Nat.add_sub_add_right]
    simp

theorem digits_ten_mul {n : Nat} (hn : n ≠ 0) (e e' : Int) :
    (Decimal.mk (10 * n) e).digits = (Decimal.mk n e').digits ++ ['0'] := by
  have hten := Nat.toDigits_append_toDigits (b := 10) (d := 0) (by decide) (Nat.pos_of_ne_zero hn) (by decide)
  exact hten.symm

theorem point_not_mem_digits (d : Decimal) : '.' ∉ d.digits := by
  intro h
  cases d.isDigit_of_mem_digits h

theorem withoutZeros_positional_ten_mul {n : Nat} (hn : n ≠ 0) (e : Int) :
    withoutZeros (positional ⟨10 * n, e⟩) = withoutZeros (positional ⟨n, e + 1⟩) := by
  have hdigits := digits_ten_mul hn e (e + 1)
  have hne := digits_ne_nil ⟨n, e + 1⟩
  have hpoint := point_not_mem_digits ⟨n, e + 1⟩
  unfold positional
  rw [hdigits]
  generalize (Decimal.mk n (e + 1)).digits = digits at *
  simp only
  rcases lt_trichotomy e (-1) with h | h | h
  · have hplaces : (-e).toNat = (-(e + 1)).toNat + 1 := by omega
    rw [if_neg (by omega), if_neg (by omega), hplaces, pointed_concat hne,
      withoutZeros_concat_zero (mem_pointed _ _)]
  · -- the zero is the whole fraction, and the point goes with it
    have hlength := List.length_pos_iff.2 hne
    subst h
    have hzero : pointed digits 0 = digits ++ ['.'] := by
      simp [pointed, hlength]
    change withoutZeros (pointed (digits ++ ['0']) (0 + 1)) = withoutZeros (digits ++ [])
    rw [pointed_concat hne, withoutZeros_concat_zero (mem_pointed _ _), hzero, withoutZeros_concat_point hpoint,
      List.append_nil, withoutZeros_of_not_mem hpoint]
  · have hplaces : (e + 1).toNat = e.toNat + 1 := by omega
    rw [if_pos (by omega), if_pos (by omega), hplaces, List.replicate_succ, List.append_assoc,
      List.singleton_append]

theorem getLast?_digits (hend : d.coefficient % 10 ≠ 0) : ∃ c ∈ d.digits.getLast?, c ≠ '0' := by
  refine ⟨_, List.getLast?_eq_some_getLast d.digits_ne_nil, fun hzero => ?_⟩
  have hdigits := List.dropLast_concat_getLast d.digits_ne_nil
  rw [hzero] at hdigits
  have hvalue := d.valueOf_digits
  have hlast : Numeral.valueOf ['0'] = 0 := rfl
  rw [← hdigits, Numeral.valueOf_append, hlast, List.length_singleton] at hvalue
  omega

theorem withoutZeros_of_getLast? {cs : List Char} (hend : d.coefficient % 10 ≠ 0)
    (hlast : cs.getLast? = d.digits.getLast?) : withoutZeros cs = cs := by
  obtain ⟨c, hc, hzero⟩ := getLast?_digits hend
  have hpoint : c ≠ '.' := by
    rintro rfl
    exact d.point_not_mem_digits (List.mem_of_getLast? hc)
  exact withoutZeros_eq_self (hlast ▸ hc) hzero hpoint

theorem getLast?_pointed (hne : digits ≠ []) (hplaces : places ≠ 0) :
    (pointed digits places).getLast? = digits.getLast? := by
  have hlength := List.length_pos_iff.2 hne
  unfold pointed
  split
  next h =>
    rw [List.getLast?_append, List.getLast?_cons, List.getLast?_drop, if_neg (by omega)]
    simp [List.getLast?_eq_some_getLast hne]
  next h => simp [List.getLast?_cons, List.getLast?_append, List.getLast?_eq_some_getLast hne]

theorem withoutZeros_positional_eq_self (hend : d.coefficient % 10 ≠ 0) :
    withoutZeros d.positional = d.positional := by
  by_cases hexponent : 0 ≤ d.exponent
  · rw [positional, if_pos hexponent]
    apply withoutZeros_of_not_mem
    rw [List.mem_append, not_or]
    exact ⟨d.point_not_mem_digits, fun h => by cases Numeral.isDigit_of_mem_zeros h⟩
  · rw [positional, if_neg hexponent]
    exact withoutZeros_of_getLast? hend (getLast?_pointed d.digits_ne_nil (by omega))

/-- What does not change with a zero that is moved into the exponent does not change with trimming. -/
theorem apply_trimmed {α : Type} (f : Decimal → α) (hstep : ∀ n e, n ≠ 0 → f ⟨10 * n, e⟩ = f ⟨n, e + 1⟩)
    (hne : d.coefficient ≠ 0) : f d.trimmed = f d := by
  obtain ⟨coefficient, exponent⟩ := d
  unfold trimmed
  fun_induction trimCoefficient coefficient exponent with
  | case1 coefficient exponent h ih =>
      have hten : 10 * (coefficient / 10) = coefficient := Nat.mul_div_cancel' (Nat.dvd_of_mod_eq_zero h.2)
      have hrest : coefficient / 10 ≠ 0 := by omega
      rw [ih hrest, ← hstep _ _ hrest, hten]
  | case2 => rfl

theorem withoutZeros_positional (hne : d.coefficient ≠ 0) : withoutZeros d.positional = d.trimmed.positional := by
  rw [← withoutZeros_positional_eq_self (trimmed_coefficient_mod_ten hne)]
  have hkeep := apply_trimmed (fun d => withoutZeros d.positional)
    (fun _ e hn => withoutZeros_positional_ten_mul hn e) hne
  exact hkeep.symm

theorem withoutZeros_mantissa_ten_mul {n : Nat} (hn : n ≠ 0) (e : Int) :
    withoutZeros (mantissa ⟨10 * n, e⟩) = withoutZeros (mantissa ⟨n, e + 1⟩) := by
  have hdigits := digits_ten_mul hn e (e + 1)
  have hpoint := point_not_mem_digits ⟨n, e + 1⟩
  have hne := digits_ne_nil ⟨n, e + 1⟩
  unfold mantissa
  rw [hdigits]
  generalize (Decimal.mk n (e + 1)).digits = digits at *
  match digits with
  | [] => exact absurd rfl hne
  | [first] =>
      change withoutZeros ([first, '.'] ++ ['0']) = withoutZeros [first]
      rw [withoutZeros_concat_zero (by simp), withoutZeros_of_not_mem hpoint]
      exact withoutZeros_concat_point hpoint
  | first :: second :: rest =>
      change withoutZeros ((first :: '.' :: second :: rest) ++ ['0']) = withoutZeros (first :: '.' :: second :: rest)
      exact withoutZeros_concat_zero (by simp)

theorem getLast?_mantissa (d : Decimal) : d.mantissa.getLast? = d.digits.getLast? := by
  unfold mantissa
  split
  next heq => rw [heq, List.getLast?_cons_cons, List.getLast?_cons_cons, List.getLast?_cons_cons]
  next => rfl

theorem withoutZeros_mantissa (hne : d.coefficient ≠ 0) : withoutZeros d.mantissa = d.trimmed.mantissa := by
  rw [← withoutZeros_of_getLast? (trimmed_coefficient_mod_ten hne) d.trimmed.getLast?_mantissa]
  have hkeep := apply_trimmed (fun d => withoutZeros d.mantissa)
    (fun _ e hn => withoutZeros_mantissa_ten_mul hn e) hne
  exact hkeep.symm

end Decimal

/-! ### The two roundings -/

namespace Binary64

variable {k count : Nat}

/-- The magnitude at ordinal `k` with `count` digits. Where rounding leads to one digit more, the last one is a zero and
is left out. -/
def scientific (k count : Nat) : Decimal :=
  let d := roundedAt k (leading (fraction k).1 (fraction k).2 - count + 1)
  if Decimal.digitCount d.coefficient ≤ count then d else ⟨d.coefficient / 10, d.exponent + 1⟩

/-- The text of the magnitude at ordinal `k` with `count` digits, after one rounding or two. -/
def twiceRounded (k count : Nat) : List Char :=
  let first := scientific k count
  if -4 ≤ first.leading && first.leading < count then
    withoutZeros (roundedAt k (first.leading - count + 1)).positional
  else withoutZeros first.mantissa ++ Style.paddedExponent first.leading

section

variable (hk : k ≠ 0) (hpos : 0 < count)
include hk hpos

/-- A rounded number with more digits than it is rounded to is a power of ten. -/
theorem coefficient_roundedAt_of_lt
    (hlt : count < Decimal.digitCount (roundedAt k (Int.log 10 (value k) - count + 1)).coefficient) :
    (roundedAt k (Int.log 10 (value k) - count + 1)).coefficient = 10 ^ count := by
  have hrounded := isRoundedAt_roundedAt k (Int.log 10 (value k) - count + 1)
  obtain ⟨-, hhigh⟩ := IsSignificant.bounds (value_pos hk) hpos hrounded
  have hten := zpow_ten_pos (Int.log 10 (value k) - count + 1)
  have hnext : ((10 ^ count : ℕ) : ℚ) * 10 ^ (Int.log 10 (value k) - count + 1) = 10 ^ (Int.log 10 (value k) + 1) :=
    pow_mul_zpow_ten (by omega)
  rw [← hnext] at hhigh
  apply Nat.le_antisymm
  · exact_mod_cast le_of_mul_le_mul_right hhigh hten
  · rw [← Nat.not_le, Decimal.digitCount_le_iff hpos, Nat.not_lt] at hlt
    exact hlt

theorem isSignificant_scientific : IsSignificant count (value k) (scientific k count).value := by
  have hrounded : IsSignificant count (value k) (roundedAt k (Int.log 10 (value k) - count + 1)).value :=
    isRoundedAt_roundedAt k _
  unfold scientific
  rw [leading_fraction hk]
  simp only
  split
  next => exact hrounded
  next hlong =>
    have hpower := coefficient_roundedAt_of_lt hk hpos (Nat.lt_of_not_le hlong)
    have hzero : (roundedAt k (Int.log 10 (value k) - count + 1)).coefficient % 10 = 0 := by
      rw [hpower]
      exact Nat.mod_eq_zero_of_dvd (dvd_pow_self 10 hpos.ne')
    rw [Decimal.value_div_ten hzero]
    exact hrounded

theorem coefficient_ne_zero_of_isSignificant {d : Decimal} (h : IsSignificant count (value k) d.value) :
    d.coefficient ≠ 0 := by
  rw [Ne, ← Decimal.value_eq_zero_iff]
  exact (h.pos (value_pos hk) hpos).ne'

/-- All decimals of the rounded number are trimmed to the one that is shown. -/
theorem trimmed_eq_significant (hcount : count ≤ 17) {d : Decimal} (h : IsSignificant count (value k) d.value) :
    d.trimmed = significant k count := by
  rw [significant_eq_trimmed hk hcount]
  exact Decimal.trimmed_eq_of_value_eq (coefficient_ne_zero_of_isSignificant hk hpos h)
    (h.unique (isRoundedAt_roundedAt k _))

/-- The text that two roundings lead to is that of the decimal that is rounded once. -/
theorem decimalText_significant (hcount : count ≤ 17) :
    (Style.general count).decimalText (significant k count) = twiceRounded k count := by
  have hfirst := isSignificant_scientific hk hpos
  have hfirstne := coefficient_ne_zero_of_isSignificant hk hpos hfirst
  have htrimmed := trimmed_eq_significant hk hpos hcount hfirst
  -- the place of the second rounding follows from the first digit after the first one
  have hsecond : IsSignificant count (value k)
      (roundedAt k ((scientific k count).leading - count + 1)).value := by
    have hplace := hfirst.isRoundedAt_log (value_pos hk) hpos
    rw [← Decimal.leading_eq_log hfirstne] at hplace
    rw [← hplace.unique (isRoundedAt_roundedAt k _)]
    exact hfirst
  have hne : (significant k count).coefficient ≠ 0 := by
    rw [← htrimmed]
    exact Decimal.trimmed_coefficient_ne_zero hfirstne
  have hleading : (significant k count).leading = (scientific k count).leading := by
    rw [← htrimmed, Decimal.leading_eq_log (Decimal.trimmed_coefficient_ne_zero hfirstne), Decimal.value_trimmed,
      Decimal.leading_eq_log hfirstne]
  unfold twiceRounded
  simp only
  rw [Decimal.withoutZeros_mantissa hfirstne, htrimmed,
    Decimal.withoutZeros_positional (coefficient_ne_zero_of_isSignificant hk hpos hsecond),
    trimmed_eq_significant hk hpos hcount hsecond]
  unfold Style.decimalText
  rw [hleading]
  simp [Style.general, hne]

end

end Binary64

end DeskCalc
