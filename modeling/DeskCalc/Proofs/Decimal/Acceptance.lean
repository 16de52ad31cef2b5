import DeskCalc.Proofs.Binary64.Order
import DeskCalc.Proofs.Decimal.Rounding

/-!
What the number reader accepts. It takes the texts of one grammar whose nearest double is finite, and no other:
a sign or none, a numeral, nothing before it and nothing after it. The same texts are left of all written doubles,
the names of infinity and of what is no number among them, by asking for certain characters, for a digit and for a
finite value.
-/

namespace DeskCalc

/-- The signs that a number may be written with; none is a plus. -/
def IsSignText (sign : List Char) : Prop := sign = [] ∨ sign = ['+'] ∨ sign = ['-']

/-- The texts of doubles, also of those that are not finite. Names are read in upper and in lower case. -/
inductive WrittenDouble : List Char → Float → Prop
  | numeral {sign : List Char} (hsign : IsSignText sign) (n : Numeral) {x : Float}
      (hnegative : Binary64.isNegative x = decide (sign = ['-']))
      (hx : Binary64.IsNearest n.value (Binary64.ordinal x)) : WrittenDouble (sign ++ n.text) x
  | infinity {sign name : List Char} (hsign : IsSignText sign)
      (hname : name.map Char.toLower = "inf".toList ∨ name.map Char.toLower = "infinity".toList) {x : Float}
      (hnegative : Binary64.isNegative x = decide (sign = ['-']))
      (hx : Binary64.ordinal x = Binary64.infinite) : WrittenDouble (sign ++ name) x
  | nan {sign name : List Char} (hsign : IsSignText sign) (hname : name.map Char.toLower = "nan".toList) {x : Float}
      (hx : x.isNaN = true) : WrittenDouble (sign ++ name) x

/-- The characters of numerals and signs. -/
def isNumberPart (c : Char) : Bool := Numeral.isPart c || c == '+' || c == '-'

namespace Numeral

theorem isNumberPart_of_mem_text (n : Numeral) {c : Char} (h : c ∈ n.text) : isNumberPart c = true := by
  rcases n.isPart_or_sign_of_mem_text h with hpart | rfl | rfl
  · rw [isNumberPart, hpart]
    rfl
  · rfl
  · rfl

theorem exists_isDigit_mem_text (n : Numeral) : ∃ c ∈ n.text, c.isDigit = true := by
  rcases n.ne_nil with hwhole | ⟨ds, hds, hne⟩
  · obtain ⟨c, hc⟩ := List.exists_mem_of_ne_nil _ hwhole
    exact ⟨c, List.mem_append_left _ hc, n.isDigit_whole c hc⟩
  · obtain ⟨c, hc⟩ := List.exists_mem_of_ne_nil _ hne
    refine ⟨c, ?_, n.isDigit_fraction ds hds c hc⟩
    rw [text, fractionText, Option.mem_def.1 hds]
    simp [hc]

/-- A sign before a numeral is the sign of the double, which is nearest to the number without it. -/
theorem signed_toFloat_eq_iff (n : Numeral) (sign : List Char) (x : Float) :
    (if sign = ['-'] then -n.decimal.toFloat else n.decimal.toFloat) = x ↔
      Binary64.isNegative x = decide (sign = ['-']) ∧ Binary64.IsNearest n.value (Binary64.ordinal x) := by
  have hle : Binary64.ordinal n.decimal.toFloat ≤ Binary64.infinite := by
    rw [Decimal.ordinal_toFloat]
    exact n.decimal.ordinal_le_infinite
  obtain ⟨hpositive, hnearest⟩ := (n.toFloat_decimal_eq_iff _).1 rfl
  have hvalue : Binary64.isNegative (if sign = ['-'] then -n.decimal.toFloat else n.decimal.toFloat) =
        decide (sign = ['-']) ∧
      Binary64.ordinal (if sign = ['-'] then -n.decimal.toFloat else n.decimal.toFloat) =
        Binary64.ordinal n.decimal.toFloat := by
    by_cases hminus : sign = ['-']
    · simp [hminus, Binary64.isNegative_neg hle, hpositive, Binary64.ordinal_neg hle]
    · simp [hminus, hpositive]
  constructor
  · rintro rfl
    rw [hvalue.2]
    exact ⟨hvalue.1, hnearest⟩
  · rintro ⟨hsign, hx⟩
    exact Binary64.ext_ordinal (hvalue.1.trans hsign.symm) (hvalue.2.trans (hnearest.unique hx))

end Numeral

theorem signedDouble?_eq_some_iff {cs : List Char} {x : Float} : signedDouble? cs = some x ↔
    ∃ (sign : List Char) (n : Numeral), IsSignText sign ∧ cs = sign ++ n.text ∧
      Binary64.isNegative x = decide (sign = ['-']) ∧ Binary64.IsNearest n.value (Binary64.ordinal x) := by
  constructor
  · intro h
    obtain ⟨sign, n, hsign, hcs, hx⟩ := exists_of_signedDouble? h
    exact ⟨sign, n, hsign, hcs, (n.signed_toFloat_eq_iff sign x).1 hx.symm⟩
  · rintro ⟨sign, n, hsign, rfl, hx⟩
    rw [signedDouble?_append hsign, (n.signed_toFloat_eq_iff sign x).2 hx]

theorem readNumber?_eq_some_iff {cs : List Char} {x : Float} : readNumber? cs = some x ↔
    ∃ (sign : List Char) (n : Numeral), IsSignText sign ∧ cs = sign ++ n.text ∧ x.isFinite = true ∧
      Binary64.isNegative x = decide (sign = ['-']) ∧ Binary64.IsNearest n.value (Binary64.ordinal x) := by
  rw [readNumber?, Option.filter_eq_some_iff, signedDouble?_eq_some_iff]
  constructor
  · rintro ⟨⟨sign, n, hsign, hcs, hx⟩, hfinite⟩
    exact ⟨sign, n, hsign, hcs, hfinite, hx⟩
  · rintro ⟨sign, n, hsign, hcs, hfinite, hx⟩
    exact ⟨⟨sign, n, hsign, hcs, hx⟩, hfinite⟩

/-- What is refused has no such form, or its number is rounded to infinity. -/
theorem readNumber?_eq_none_iff {cs : List Char} : readNumber? cs = none ↔
    ∀ (sign : List Char) (n : Numeral), IsSignText sign → cs = sign ++ n.text →
      Binary64.IsNearest n.value Binary64.infinite := by
  constructor
  · rintro h sign n hsign rfl
    rw [readNumber?, signedDouble?_append hsign, Option.filter_eq_none_iff] at h
    have hinfinite := h _ rfl
    obtain ⟨-, hnearest⟩ := (n.signed_toFloat_eq_iff sign _).1 rfl
    rw [Binary64.isFinite_iff, Nat.not_lt] at hinfinite
    rwa [Nat.le_antisymm hnearest.le_infinite hinfinite] at hnearest
  · intro h
    by_contra hread
    obtain ⟨x, hx⟩ := Option.ne_none_iff_exists'.1 hread
    obtain ⟨sign, n, hsign, hcs, hfinite, -, hnearest⟩ := readNumber?_eq_some_iff.1 hx
    rw [Binary64.isFinite_iff, hnearest.unique (h sign n hsign hcs)] at hfinite
    exact Nat.lt_irrefl _ hfinite

/-- A written double that is finite is a numeral with a sign or without. -/
theorem WrittenDouble.readNumber?_eq {cs : List Char} {x : Float} (h : WrittenDouble cs x)
    (hfinite : x.isFinite = true) : readNumber? cs = some x := by
  cases h with
  | numeral hsign n hnegative hx =>
      exact readNumber?_eq_some_iff.2 ⟨_, n, hsign, rfl, hfinite, hnegative, hx⟩
  | infinity _ _ _ hx =>
      rw [Binary64.isFinite_iff, hx] at hfinite
      exact absurd hfinite (Nat.lt_irrefl _)
  | nan _ _ hx =>
      rw [Binary64.isNaN_of_isFinite hfinite] at hx
      cases hx

/-- The number reader accepts one grammar and gives the nearest double with the sign that is written, unless it is
infinite. It refuses all else, and what it accepts are the written doubles with a digit, with no other characters
than those of numbers and with a finite value. -/
theorem readNumber?_grammar (cs : List Char) :
    (∀ x, readNumber? cs = some x ↔ ∃ (sign : List Char) (n : Numeral), IsSignText sign ∧ cs = sign ++ n.text ∧
      x.isFinite = true ∧ Binary64.isNegative x = decide (sign = ['-']) ∧
      Binary64.IsNearest n.value (Binary64.ordinal x)) ∧
    (readNumber? cs = none ↔ ∀ (sign : List Char) (n : Numeral), IsSignText sign → cs = sign ++ n.text →
      Binary64.IsNearest n.value Binary64.infinite) ∧
    ∀ x, readNumber? cs = some x ↔ (∀ c ∈ cs, isNumberPart c = true) ∧ (∃ c ∈ cs, c.isDigit = true) ∧
      WrittenDouble cs x ∧ x.isFinite = true := by
  refine ⟨fun _ => readNumber?_eq_some_iff, readNumber?_eq_none_iff, ?_⟩
  intro x
  constructor
  · intro h
    obtain ⟨sign, n, hsign, rfl, hfinite, hnegative, hx⟩ := readNumber?_eq_some_iff.1 h
    refine ⟨List.forall_mem_append.2 ⟨?_, fun c hc => n.isNumberPart_of_mem_text hc⟩, ?_,
      .numeral hsign n hnegative hx, hfinite⟩
    · rcases hsign with rfl | rfl | rfl
      · exact nofun
      · exact List.forall_mem_singleton.2 rfl
      · exact List.forall_mem_singleton.2 rfl
    · obtain ⟨c, hc, hdigit⟩ := n.exists_isDigit_mem_text
      exact ⟨c, List.mem_append_right sign hc, hdigit⟩
  · rintro ⟨-, -, hwritten, hfinite⟩
    exact hwritten.readNumber?_eq hfinite

example : ["e5", ".e5", "1e+", "+.", "--1", "1..2", "inf", "NaN", "1e999", "", "٣"].all
    (fun text => (readNumber? text.toList).isNone) = true := by
  decide +kernel

end DeskCalc
