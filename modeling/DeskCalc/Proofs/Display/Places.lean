import DeskCalc.Proofs.Binary64.Spacing
import DeskCalc.Proofs.Display.General
import DeskCalc.Proofs.Display.Scalar

/-!
Numbers rounded to decimal places. A double is multiplied by a power of ten, rounded to a whole number and divided
again; each step leads to a double, and what is shown is the shortest decimal of the last one. It is nevertheless the
whole number over the power of ten, digit by digit, as long as the whole number is at most `2 ^ 52`. A product that is
larger is not rounded at all.
-/

namespace DeskCalc

/-- A whole number nearest to `q`; a half is rounded away from zero. -/
def roundHalfAway (q : ℚ) : ℤ := if q < 0 then -⌊-q + 1 / 2⌋ else ⌊q + 1 / 2⌋

/-- A text is the numeral after a sign or none, and `q` is the number that it denotes. -/
def Numeral.Denotes (n : Numeral) (cs : List Char) (q : ℚ) : Prop :=
  ∃ sign, (sign = [] ∨ sign = ['+'] ∨ sign = ['-']) ∧ cs = sign ++ n.text ∧
    q = if sign = ['-'] then -n.value else n.value

theorem roundHalfUp_eq_floor {a b : Nat} (hb : 0 < b) : roundHalfUp a b = ⌊(a / b : ℚ) + 1 / 2⌋₊ := by
  have hpos : (b : ℚ) ≠ 0 := Nat.cast_ne_zero.2 hb.ne'
  have hsum : (a / b : ℚ) + 1 / 2 = ((2 * a + b : ℕ) : ℚ) / ((2 * b : ℕ) : ℚ) := by
    push_cast
    field_simp
  rw [hsum, Nat.floor_div_eq_div, roundHalfUp]

namespace Binary64

variable {x : Float} {k n : Nat}

/-- The number that a double is; that of infinity is the next power of two after the largest double. -/
def signedValue (x : Float) : ℚ := if isNegative x then -value (ordinal x) else value (ordinal x)

theorem value_nonneg (k : Nat) : 0 ≤ value k := by
  unfold value
  positivity

theorem abs_signedValue (x : Float) : |signedValue x| = value (ordinal x) := by
  unfold signedValue
  split
  · rw [abs_neg, abs_of_nonneg (value_nonneg _)]
  · rw [abs_of_nonneg (value_nonneg _)]

/-- The number is rounded without its sign. -/
theorem roundHalfAway_signedValue (x : Float) : roundHalfAway (signedValue x) =
    if isNegative x then -(⌊value (ordinal x) + 1 / 2⌋₊ : ℤ) else ⌊value (ordinal x) + 1 / 2⌋₊ := by
  have hnonneg := value_nonneg (ordinal x)
  have hfloor : (⌊value (ordinal x) + 1 / 2⌋₊ : ℤ) = ⌊value (ordinal x) + 1 / 2⌋ :=
    Int.natCast_floor_eq_floor (by linarith)
  rw [hfloor, roundHalfAway, signedValue]
  split
  · rcases hnonneg.lt_or_eq with hpos | hzero
    · rw [if_pos (by linarith), neg_neg]
    · rw [← hzero]
      norm_num
  · rw [if_neg (not_lt.2 hnonneg)]

/-! ### Multiplying, rounding and dividing -/

theorem lt_wholeFrom_iff : k < wholeFrom ↔ value k < 2 ^ 52 := by
  rw [← value_wholeFrom, value_strictMono.lt_iff_lt]

/-- The powers of ten that are used are exact. -/
theorem signedValue_tenTo (hn : n ≤ 15) : signedValue (tenTo n) = 10 ^ n := by
  have hall : ∀ n : Fin 16, isNegative (tenTo (n : Nat)) = false ∧
      units (ordinal (tenTo (n : Nat))) = 10 ^ (n : Nat) * 2 ^ depth := by decide +kernel
  obtain ⟨hsign, hunits⟩ := hall ⟨n, by omega⟩
  simp only at hsign hunits
  rw [signedValue, hsign, if_neg Bool.false_ne_true, value, hunits]
  push_cast
  rw [mul_div_cancel_right₀ _ (by positivity)]

theorem value_tenTo (hn : n ≤ 15) : value (ordinal (tenTo n)) = 10 ^ n := by
  rw [← abs_signedValue, signedValue_tenTo hn, abs_of_pos (by positivity)]

/-- A whole number divided by a power of ten is the double that the decimal is read as. -/
theorem divided_eq_ordinal (whole : Nat) (hk : value k = 10 ^ n) :
    divided whole k = (Decimal.mk whole (-n)).ordinal := by
  have hzero : k ≠ 0 := by
    rintro rfl
    rw [value_zero] at hk
    exact (pow_pos (by norm_num : (0 : ℚ) < 10) n).ne hk
  have hsnd : ((fraction k).2 : ℚ) ≠ 0 := Nat.cast_ne_zero.2 (fraction_snd_pos k).ne'
  have hfst : 0 < (fraction k).1 := by
    apply Nat.pos_of_ne_zero
    intro hnone
    rw [value_eq_fraction, hnone, Nat.cast_zero, zero_div] at hk
    exact (pow_pos (by norm_num : (0 : ℚ) < 10) n).ne hk
  have hnearest : IsNearest ((whole * (fraction k).2 : ℕ) / (fraction k).1)
      (nearest (whole * (fraction k).2) (fraction k).1) := isNearest_nearest hfst
  have hvalue : ((whole * (fraction k).2 : ℕ) : ℚ) / (fraction k).1 = (Decimal.mk whole (-n)).value := by
    rw [value_eq_fraction, div_eq_iff hsnd] at hk
    rw [Decimal.value, hk, zpow_neg, zpow_natCast, ← div_eq_mul_inv]
    push_cast
    rw [mul_div_mul_right _ _ hsnd]
  rw [hvalue] at hnearest
  rw [divided, if_neg hzero]
  exact hnearest.unique (Decimal.isNearest_ordinal _)

variable {places : UInt32}

theorem toInt_toInt32 (hplaces : places ≤ 15) : places.toInt32.toInt = places.toNat := by
  have hle : places.toNat ≤ 15 := hplaces
  apply BitVec.toInt_eq_toNat_of_lt
  change 2 * places.toNat < 2 ^ 32
  omega

/-- Below `2 ^ 52` a product with a power of ten is rounded to a whole number, which is divided again. -/
theorem roundToPlaces_of_lt (hplaces : places ≤ 15)
    (hy : value (ordinal (x * tenTo places.toNat)) < 2 ^ 52) :
    isNegative (roundToPlaces x places) = isNegative (x * tenTo places.toNat) ∧
      ordinal (roundToPlaces x places) =
        (Decimal.mk ⌊value (ordinal (x * tenTo places.toNat)) + 1 / 2⌋₊ (-places.toNat)).ordinal := by
  have hwhole := roundHalfUp_eq_floor (a := (fraction (ordinal (x * tenTo places.toNat))).1)
    (fraction_snd_pos (ordinal (x * tenTo places.toNat)))
  rw [← value_eq_fraction] at hwhole
  unfold roundToPlaces
  simp only [toInt_toInt32 hplaces, if_pos (lt_wholeFrom_iff.2 hy), hwhole,
    divided_eq_ordinal _ (value_tenTo (show places.toNat ≤ 15 from hplaces))]
  generalize Decimal.mk ⌊value (ordinal (x * tenTo places.toNat)) + 1 / 2⌋₊ (-places.toNat) = d
  have hle := d.ordinal_le_infinite
  have hordinal := ordinal_ofOrdinal hle
  cases hsign : isNegative (x * tenTo places.toNat) with
  | true =>
      rw [if_pos rfl, isNegative_neg (hordinal.le.trans hle), isNegative_ofOrdinal hle,
        ordinal_neg (hordinal.le.trans hle)]
      exact ⟨rfl, hordinal⟩
  | false =>
      rw [if_neg Bool.false_ne_true, isNegative_ofOrdinal hle]
      exact ⟨rfl, hordinal⟩

/-- A product that is not below `2 ^ 52` has nothing left to round. -/
theorem roundToPlaces_of_le (hplaces : places ≤ 15)
    (hy : 2 ^ 52 ≤ value (ordinal (x * tenTo places.toNat))) : roundToPlaces x places = x := by
  unfold roundToPlaces
  simp only [toInt_toInt32 hplaces, if_neg (mt lt_wholeFrom_iff.1 (not_lt.2 hy))]

end Binary64

/-! ### The text -/

namespace Style

/-- A decimal with few places is shown with no more than these, but a whole number keeps its `.0`. -/
theorem exists_numeral_scalar {d : Decimal} {places : Nat} (hplaces : -(places : ℤ) ≤ d.exponent)
    (hsmall : d.value < 10 ^ (16 : ℤ)) :
    ∃ n : Numeral, n.text = scalar.decimalText d ∧ n.value = d.value ∧
      (n.fraction.length ≤ places ∨ n.fraction = ['0'] ∧ n.exponent? = none) := by
  unfold decimalText
  split
  next =>
    by_cases hwhole : 0 ≤ d.exponent
    · obtain ⟨n, htext, hvalue, hnone, -⟩ := d.exists_numeral_whole hwhole true
      have hdigits : Numeral.scanDigits (d.positional ++ ['.', '0']) = (d.positional, ['.', '0']) :=
        Numeral.scanDigits_append_of_head? (fun c hc => d.isDigit_of_mem_positional hwhole hc) (by simp)
      have hfraction := n.scanFraction_scanDigits_text
      rw [htext, if_pos rfl, hdigits] at hfraction
      refine ⟨n, ?_, by rw [← n.value_decimal, hvalue], .inr ⟨hfraction.symm, hnone⟩⟩
      simp [htext, scalar, hwhole]
    · have hpos : 0 < (-d.exponent).toNat := by omega
      obtain ⟨n, htext, hdecimal, hnone, -⟩ := Decimal.exists_numeral_pointed
        (fun c hc => d.isDigit_of_mem_digits hc) d.digits_ne_nil hpos
      have hexponent : -(((-d.exponent).toNat : ℕ) : ℤ) = d.exponent := by omega
      rw [d.valueOf_digits, hexponent] at hdecimal
      have hlength := congrArg Decimal.exponent hdecimal
      rw [Numeral.decimal, hnone] at hlength
      simp only [Option.elim_none] at hlength
      refine ⟨n, ?_, by rw [← n.value_decimal, hdecimal], .inl (by omega)⟩
      simp [htext, scalar, hwhole, Decimal.positional]
  next hscientific =>
    obtain ⟨e, he, hvalue⟩ := scalar_writesExponents d.leading
    obtain ⟨n, htext, hdecimal, hsome, -⟩ := d.exists_numeral_scientific e hvalue
    have hlength := congrArg Decimal.exponent hdecimal
    rw [Numeral.decimal, hsome] at hlength
    simp only [Option.elim_some, hvalue] at hlength
    have hne : d.coefficient ≠ 0 := by
      intro hzero
      simp [hzero] at hscientific
    have hleading : d.leading < 16 := by
      rw [Decimal.leading_eq_log hne]
      apply (Int.lt_zpow_iff_log_lt (by norm_num) (Decimal.value_pos hne)).1
      exact_mod_cast hsmall
    -- an exponent is written below `10 ^ (-4)` only, where the digits begin after the fourth place
    have hsmallest : d.leading < -4 := by
      by_contra hnot
      simp [scalar, hne, hleading, not_lt.1 hnot] at hscientific
    exact ⟨n, by rw [htext, he], by rw [← n.value_decimal, hdecimal], .inl (by omega)⟩

end Style

section Rounded

variable {x : Float} {places : UInt32}

theorem toList_scalarText_of_isFinite (hx : x.isFinite = true) : (scalarText x).toList =
    signText x ++ Style.scalar.decimalText (Binary64.shortest (Binary64.ordinal x)) := by
  rw [scalarText, String.toList_ofList, Style.text_of_isFinite _ _ hx]

theorem exists_denotes_of_lt (hplaces : places ≤ 15)
    (hy : Binary64.value (Binary64.ordinal (x * Binary64.tenTo places.toNat)) < 2 ^ 52) :
    ∃ n : Numeral,
      n.Denotes (roundedText x places).toList
        (roundHalfAway (Binary64.signedValue (x * Binary64.tenTo places.toNat)) / 10 ^ places.toNat) ∧
      (n.fraction.length ≤ places.toNat ∨ n.fraction = ['0'] ∧ n.exponent? = none) := by
  obtain ⟨hsign, hordinal⟩ := Binary64.roundToPlaces_of_lt hplaces hy
  have hround := Binary64.roundHalfAway_signedValue (x * Binary64.tenTo places.toNat)
  have hwhole : ⌊Binary64.value (Binary64.ordinal (x * Binary64.tenTo places.toNat)) + 1 / 2⌋₊ ≤ 2 ^ 52 := by
    apply Nat.le_of_lt_succ
    rw [Nat.floor_lt (add_nonneg (Binary64.value_nonneg _) (by norm_num))]
    push_cast
    linarith
  generalize ⌊Binary64.value (Binary64.ordinal (x * Binary64.tenTo places.toNat)) + 1 / 2⌋₊ = whole
    at hordinal hround hwhole
  have hle : (Decimal.mk whole (-places.toNat)).value ≤ 2 ^ 52 := Decimal.value_mk_le hwhole (by omega)
  obtain ⟨hvalue, hexponent⟩ := Decimal.shortest_ordinal hwhole (show places.toNat ≤ 15 from hplaces)
  have hfinite : (Binary64.roundToPlaces x places).isFinite = true := by
    rw [Binary64.isFinite_iff, hordinal]
    exact Decimal.ordinal_lt_infinite hle
  rw [← hordinal] at hvalue hexponent
  obtain ⟨n, htext, hn, hfraction⟩ := Style.exists_numeral_scalar hexponent
    ((hvalue.trans_le hle).trans_lt (by norm_num))
  refine ⟨n, ⟨_, signText_cases (Binary64.roundToPlaces x places), ?_, ?_⟩, hfraction⟩
  · rw [roundedText, toList_scalarText_of_isFinite hfinite, htext]
  · have hquotient : n.value = whole / 10 ^ places.toNat := by
      rw [hn, hvalue, Decimal.value, zpow_neg, zpow_natCast, ← div_eq_mul_inv]
    rw [hround, hquotient, signText, hsign]
    cases Binary64.isNegative (x * Binary64.tenTo places.toNat) with
    | true => simp [neg_div]
    | false => simp

/-- A finite double that is shown with a number of places: it is multiplied by an exact power of ten, and if the product
is below `2 ^ 52` in magnitude, the text denotes the product rounded to a whole number and divided by the power of ten,
without rounding. No more places are shown, but a whole number is shown with one, which is zero. Otherwise the text is
read as the double itself. -/
theorem roundedText_denotes (x : Float) (places : UInt32) (hx : x.isFinite = true) (hplaces : places ≤ 15) :
    Binary64.signedValue (Binary64.tenTo places.toNat) = 10 ^ places.toNat ∧
    (|Binary64.signedValue (x * Binary64.tenTo places.toNat)| < 2 ^ 52 →
      ∃ n : Numeral,
        n.Denotes (roundedText x places).toList
          (roundHalfAway (Binary64.signedValue (x * Binary64.tenTo places.toNat)) / 10 ^ places.toNat) ∧
        (n.fraction.length ≤ places.toNat ∨ n.fraction = ['0'] ∧ n.exponent? = none)) ∧
    (2 ^ 52 ≤ |Binary64.signedValue (x * Binary64.tenTo places.toNat)| →
      ∃ (n : Numeral) (q : ℚ), n.Denotes (roundedText x places).toList q ∧
        readNumber? (roundedText x places).toList = some x) := by
  refine ⟨Binary64.signedValue_tenTo hplaces, ?_, ?_⟩
  · intro hy
    rw [Binary64.abs_signedValue] at hy
    exact exists_denotes_of_lt hplaces hy
  · intro hy
    rw [Binary64.abs_signedValue] at hy
    obtain ⟨t, htext, hsigned, hfinite, rfl⟩ := Style.exists_typedNumber Style.scalar_writesExponents hx
    have hlist : (roundedText t.value places).toList = t.sign ++ t.numeral.text := by
      rw [roundedText, Binary64.roundToPlaces_of_le hplaces hy, scalarText, String.toList_ofList, htext, hsigned]
    refine ⟨t.numeral, _, ⟨t.sign, t.sign_mem, hlist, rfl⟩, ?_⟩
    rw [hlist]
    exact t.readNumber?_sign_append hfinite

/-- The sum of `0.1` and `0.2`, whose last digit is rounded away. -/
theorem roundedText_denotes_of_sum : scalarText (0.1 + 0.2) = "0.30000000000000004" ∧
    ∃ n : Numeral, n.Denotes "0.3".toList (3 / 10) ∧ n.fraction.length ≤ 10 := by
  have hfinite : (0.1 + 0.2 : Float).isFinite = true := by decide +kernel
  have hproduct : |Binary64.signedValue ((0.1 + 0.2) * Binary64.tenTo (10 : UInt32).toNat)| < 2 ^ 52 := by
    decide +kernel
  have hrounded : roundHalfAway (Binary64.signedValue ((0.1 + 0.2) * Binary64.tenTo (10 : UInt32).toNat)) =
      3000000000 := by decide +kernel
  have htext : roundedText (0.1 + 0.2) 10 = "0.3" := by decide +kernel
  obtain ⟨n, hdenotes, hfraction⟩ := (roundedText_denotes (0.1 + 0.2) 10 hfinite (by decide)).2.1 hproduct
  rw [htext, hrounded] at hdenotes
  have hquotient : ((3000000000 : ℤ) : ℚ) / 10 ^ (10 : UInt32).toNat = 3 / 10 := by
    rw [show (10 : UInt32).toNat = 10 from rfl]
    norm_num
  refine ⟨by decide +kernel, n, hquotient ▸ hdenotes, ?_⟩
  rcases hfraction with hle | ⟨heq, -⟩
  · exact hle
  · simp [heq]

/-- A half is rounded away from zero. -/
example : roundedText (-0.125) 2 = "-0.13" := by decide +kernel

/-- Without places a whole number is still shown with one. -/
theorem roundedText_shows_zero_of_whole : (2 : Float).isFinite = true ∧ (0 : UInt32) ≤ 15 ∧
    |Binary64.signedValue (2 * Binary64.tenTo (0 : UInt32).toNat)| < 2 ^ 52 ∧
    roundedText 2 0 = "2.0" ∧
    ∀ (n : Numeral) (q : ℚ), n.Denotes (roundedText 2 0).toList q →
      ¬n.fraction.length ≤ (0 : UInt32).toNat := by
  have htext : roundedText 2 0 = "2.0" := by decide +kernel
  refine ⟨by decide +kernel, by decide, by decide +kernel, htext, ?_⟩
  rintro n q ⟨sign, hsign, hcs, -⟩
  rw [htext] at hcs
  have hnumeral : n.text = ['2', '.', '0'] := by
    rcases hsign with rfl | rfl | rfl
    · exact hcs.symm
    · cases hcs
    · cases hcs
  have hfraction := n.scanFraction_scanDigits_text
  rw [hnumeral] at hfraction
  rw [← hfraction]
  decide

end Rounded

end DeskCalc
