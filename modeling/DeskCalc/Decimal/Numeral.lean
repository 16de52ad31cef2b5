import DeskCalc.Decimal.Basic

/-!
Decimal numerals as they are typed: digits with an optional point and further digits, or a point and
at least one digit; then an exponent, if it is complete. `Numeral.scan?` reads the longest numeral at the
start of a text and returns what is left, which is shorter.
-/

namespace DeskCalc.Numeral

/-- The run of ASCII digits at the start of a text, and the text after it. -/
def scanDigits (cs : List Char) : List Char × List Char :=
  (cs.takeWhile Char.isDigit, cs.dropWhile Char.isDigit)

/-- A leading sign, `true` for minus, and the text after it. -/
def scanSign : List Char → Bool × List Char
  | '-' :: cs => (true, cs)
  | '+' :: cs => (false, cs)
  | cs => (false, cs)

/-- The digits after a leading point. Without a point there are none. -/
def scanFraction : List Char → List Char × List Char
  | '.' :: cs => scanDigits cs
  | cs => ([], cs)

def valueOf (digits : List Char) : Nat := Nat.ofDigitChars 10 digits 0

/-- A leading exponent: `e` or `E`, an optional sign and at least one digit. An incomplete one is no
exponent, and nothing of it is read. -/
def scanExponent : List Char → Int × List Char
  | [] => (0, [])
  | c :: cs =>
    if c = 'e' ∨ c = 'E' then
      let sign := scanSign cs
      let run := scanDigits sign.2
      if run.1.isEmpty then (0, c :: cs)
      else (if sign.1 then -(valueOf run.1 : Int) else valueOf run.1, run.2)
    else (0, c :: cs)

/-- The longest numeral at the start of a text, and the text after it. -/
def scan? (cs : List Char) : Option (Decimal × List Char) :=
  let whole := scanDigits cs
  let fraction := scanFraction whole.2
  if whole.1.isEmpty && fraction.1.isEmpty then none
  else
    let exponent := scanExponent fraction.2
    some (⟨valueOf (whole.1 ++ fraction.1), exponent.1 - fraction.1.length⟩, exponent.2)

/-- The number that a whole text writes, if it is one numeral. -/
def ofChars? (cs : List Char) : Option Decimal :=
  match scan? cs with
  | some (d, []) => some d
  | _ => none

theorem length_scanDigits_le (cs : List Char) : (scanDigits cs).2.length ≤ cs.length := by
  simpa [scanDigits] using (List.dropWhile_suffix _).length_le

theorem length_scanDigits_lt {cs : List Char} (h : (scanDigits cs).1 ≠ []) :
    (scanDigits cs).2.length < cs.length := by
  have hlen := congrArg List.length (List.takeWhile_append_dropWhile (p := Char.isDigit) (l := cs))
  have hpos := List.length_pos_iff.2 h
  simp only [List.length_append] at hlen
  simp only [scanDigits] at hpos ⊢
  omega

theorem length_scanSign_le (cs : List Char) : (scanSign cs).2.length ≤ cs.length := by
  unfold scanSign
  split <;> simp

theorem length_scanFraction_le (cs : List Char) : (scanFraction cs).2.length ≤ cs.length := by
  unfold scanFraction
  split
  · exact Nat.le_succ_of_le (length_scanDigits_le _)
  · exact Nat.le_refl _

theorem length_scanFraction_lt {cs : List Char} (h : (scanFraction cs).1 ≠ []) :
    (scanFraction cs).2.length < cs.length := by
  unfold scanFraction at h ⊢
  split
  · exact Nat.lt_succ_of_le (length_scanDigits_le _)
  · simp at h

theorem length_scanExponent_le (cs : List Char) : (scanExponent cs).2.length ≤ cs.length := by
  cases cs with
  | nil => exact Nat.le_refl _
  | cons c cs =>
    simp only [scanExponent]
    split
    · split
      · exact Nat.le_refl _
      · exact Nat.le_succ_of_le (Nat.le_trans (length_scanDigits_le _) (length_scanSign_le _))
    · exact Nat.le_refl _

theorem length_scan?_lt {cs rest : List Char} {d : Decimal} (h : scan? cs = some (d, rest)) :
    rest.length < cs.length := by
  unfold scan? at h
  simp only at h
  split at h
  · simp at h
  · rename_i hempty
    simp only [Option.some.injEq, Prod.mk.injEq] at h
    have hexp := length_scanExponent_le (scanFraction (scanDigits cs).2).2
    have hfrac := length_scanFraction_le (scanDigits cs).2
    have hdig := length_scanDigits_le cs
    rw [← h.2]
    by_cases hw : (scanDigits cs).1 = []
    · have hf : (scanFraction (scanDigits cs).2).1 ≠ [] := by
        intro hf
        simp [hw, hf] at hempty
      have := length_scanFraction_lt hf
      omega
    · have := length_scanDigits_lt hw
      omega

end DeskCalc.Numeral
