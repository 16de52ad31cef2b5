import DeskCalc.Decimal.Numeral

/-!
Numerals in their parts: the digits before the point, those after it if there is a point, and an exponent if
there is one. Scanning finds such a numeral exactly where a text starts with one, it finds the longest one,
and where the text after a numeral cannot go on with it, it finds this numeral.
-/

namespace DeskCalc

/-- An exponent as it is written. -/
structure Numeral.Exponent where
  mark : Char
  sign : List Char
  digits : List Char
  mark_eq : mark = 'e' ∨ mark = 'E'
  sign_mem : sign = [] ∨ sign = ['+'] ∨ sign = ['-']
  digits_ne_nil : digits ≠ []
  isDigit_of_mem : ∀ c ∈ digits, c.isDigit = true

/-- A numeral as it is written. It has at least one digit before the point or after it. -/
structure Numeral where
  whole : List Char
  fraction? : Option (List Char)
  exponent? : Option Numeral.Exponent
  ne_nil : whole ≠ [] ∨ ∃ ds ∈ fraction?, ds ≠ []
  isDigit_whole : ∀ c ∈ whole, c.isDigit = true
  isDigit_fraction : ∀ ds ∈ fraction?, ∀ c ∈ ds, c.isDigit = true

namespace Numeral

/-- The characters that could go on with a numeral. -/
def isPart (c : Char) : Bool := c.isDigit || c == '.' || c == 'e' || c == 'E'

namespace Exponent

def text (e : Exponent) : List Char := e.mark :: (e.sign ++ e.digits)

def value (e : Exponent) : Int := if e.sign = ['-'] then -(valueOf e.digits : Int) else valueOf e.digits

theorem isPart_or_sign_of_mem_text (e : Exponent) {c : Char} (h : c ∈ e.text) :
    isPart c = true ∨ c = '+' ∨ c = '-' := by
  rcases List.mem_cons.1 h with rfl | h
  · rcases e.mark_eq with hmark | hmark <;> simp [isPart, hmark]
  rcases List.mem_append.1 h with hsign | hdigits
  · rcases e.sign_mem with hs | hs | hs <;> simp_all
  · simp [isPart, e.isDigit_of_mem c hdigits]

end Exponent

def fraction (n : Numeral) : List Char := n.fraction?.getD []

def fractionText (n : Numeral) : List Char := n.fraction?.elim [] ('.' :: ·)

def exponentText (n : Numeral) : List Char := n.exponent?.elim [] Exponent.text

def text (n : Numeral) : List Char := n.whole ++ (n.fractionText ++ n.exponentText)

/-- The number that is written. -/
def decimal (n : Numeral) : Decimal :=
  ⟨valueOf (n.whole ++ n.fraction), n.exponent?.elim 0 Exponent.value - n.fraction.length⟩

theorem isPart_of_isDigit {c : Char} (h : c.isDigit = true) : isPart c = true := by simp [isPart, h]

/-! ### Runs of digits, signs and exponents -/

section Scanners

variable {ds rest : List Char}

theorem scanDigits_append (hds : ∀ c ∈ ds, c.isDigit = true) (rest : List Char) :
    scanDigits (ds ++ rest) = (ds ++ (scanDigits rest).1, (scanDigits rest).2) := by
  simp only [scanDigits, List.takeWhile_append_of_pos hds, List.dropWhile_append_of_pos hds]

theorem scanDigits_eq_nil (hrest : ∀ c ∈ rest.head?, c.isDigit = false) : scanDigits rest = ([], rest) := by
  cases rest with
  | nil => rfl
  | cons c rest => simp [scanDigits, hrest c rfl]

theorem scanDigits_append_of_head? (hds : ∀ c ∈ ds, c.isDigit = true)
    (hrest : ∀ c ∈ rest.head?, c.isDigit = false) : scanDigits (ds ++ rest) = (ds, rest) := by
  rw [scanDigits_append hds, scanDigits_eq_nil hrest, List.append_nil]

theorem scanDigits_fst_append_snd (cs : List Char) : (scanDigits cs).1 ++ (scanDigits cs).2 = cs :=
  List.takeWhile_append_dropWhile

theorem isDigit_of_mem_scanDigits {cs : List Char} {c : Char} (h : c ∈ (scanDigits cs).1) :
    c.isDigit = true := List.all_eq_true.1 List.all_takeWhile c h

theorem scanSign_append {sign : List Char} (hsign : sign = [] ∨ sign = ['+'] ∨ sign = ['-'])
    (hrest : ∀ c ∈ rest.head?, (c.isDigit || c == '.') = true) :
    scanSign (sign ++ rest) = (decide (sign = ['-']), rest) := by
  rcases hsign with rfl | rfl | rfl
  · cases rest with
    | nil => rfl
    | cons c rest =>
        have hminus : c ≠ '-' := by
          rintro rfl
          exact absurd (hrest '-' rfl) (by decide)
        have hplus : c ≠ '+' := by
          rintro rfl
          exact absurd (hrest '+' rfl) (by decide)
        simp [scanSign, hminus, hplus]
  · rfl
  · rfl

theorem exists_of_scanSign (cs : List Char) :
    ∃ sign, (sign = [] ∨ sign = ['+'] ∨ sign = ['-']) ∧ cs = sign ++ (scanSign cs).2 ∧
      (scanSign cs).1 = decide (sign = ['-']) := by
  unfold scanSign
  split
  · exact ⟨['-'], by simp⟩
  · exact ⟨['+'], by simp⟩
  · exact ⟨[], by simp⟩

theorem scanExponent_text_append (e : Exponent) (rest : List Char) :
    scanExponent (e.text ++ rest) =
      (if e.sign = ['-'] then -(valueOf (e.digits ++ (scanDigits rest).1) : Int)
        else valueOf (e.digits ++ (scanDigits rest).1), (scanDigits rest).2) := by
  have hhead : ∀ c ∈ (e.digits ++ rest).head?, (c.isDigit || c == '.') = true := by
    intro c hc
    obtain ⟨d, ds, hds⟩ := List.exists_cons_of_ne_nil e.digits_ne_nil
    rw [hds] at hc
    obtain rfl := Option.some.inj hc
    rw [e.isDigit_of_mem d (by simp [hds]), Bool.true_or]
  rw [Exponent.text, List.cons_append, List.append_assoc, scanExponent, if_pos e.mark_eq]
  simp only [scanSign_append e.sign_mem hhead, scanDigits_append e.isDigit_of_mem]
  simp [e.digits_ne_nil]

theorem exists_of_scanExponent (cs : List Char) :
    scanExponent cs = (0, cs) ∨ ∃ e : Exponent, cs = e.text ++ (scanExponent cs).2 ∧
      (scanExponent cs).1 = e.value := by
  cases cs with
  | nil => exact .inl rfl
  | cons c cs =>
      by_cases hmark : c = 'e' ∨ c = 'E'
      · rw [scanExponent, if_pos hmark]
        by_cases hrun : (scanDigits (scanSign cs).2).1.isEmpty = true
        · simp [hrun]
        · obtain ⟨sign, hsign, hcs, hminus⟩ := exists_of_scanSign cs
          refine .inr ⟨⟨c, sign, (scanDigits (scanSign cs).2).1, hmark, hsign, by simpa using hrun,
            fun c hc => isDigit_of_mem_scanDigits hc⟩, ?_, ?_⟩
          · simp only [if_neg hrun, Exponent.text, List.cons_append, List.append_assoc,
              scanDigits_fst_append_snd]
            rw [← hcs]
          · simp only [if_neg hrun, Exponent.value, hminus, decide_eq_true_eq]
      · exact .inl (by rw [scanExponent, if_neg hmark])

end Scanners

/-! ### Scanning a text that starts with a numeral -/

section Text

variable (n : Numeral) {rest : List Char}

theorem isDigit_of_mem_fraction {c : Char} (h : c ∈ n.fraction) : c.isDigit = true := by
  unfold fraction at h
  cases hfraction : n.fraction? with
  | none =>
      rw [hfraction] at h
      cases h
  | some ds =>
      rw [hfraction] at h
      exact n.isDigit_fraction ds hfraction c h

/-- A numeral starts with a digit or a point. -/
theorem exists_text_eq_cons :
    ∃ c cs, n.text = c :: cs ∧ (c.isDigit || c == '.') = true := by
  cases hwhole : n.whole with
  | cons c cs => exact ⟨c, cs ++ (n.fractionText ++ n.exponentText), by simp [text, hwhole],
      by simp [n.isDigit_whole c (by simp [hwhole])]⟩
  | nil =>
      obtain ⟨ds, hds, -⟩ := n.ne_nil.resolve_left (· hwhole)
      exact ⟨'.', ds ++ n.exponentText, by simp [text, hwhole, fractionText, Option.mem_def.1 hds], rfl⟩

/-- The characters of a numeral. -/
theorem isPart_or_sign_of_mem_text {c : Char} (h : c ∈ n.text) : isPart c = true ∨ c = '+' ∨ c = '-' := by
  rcases List.mem_append.1 h with hwhole | h
  · exact .inl (isPart_of_isDigit (n.isDigit_whole c hwhole))
  rcases List.mem_append.1 h with hfraction | hexponent
  · unfold fractionText at hfraction
    cases hsome : n.fraction? with
    | none =>
        rw [hsome] at hfraction
        cases hfraction
    | some ds =>
        rw [hsome] at hfraction
        rcases List.mem_cons.1 hfraction with rfl | hds
        · exact .inl rfl
        · exact .inl (isPart_of_isDigit (n.isDigit_fraction ds hsome c hds))
  · unfold exponentText at hexponent
    cases hsome : n.exponent? with
    | none =>
        rw [hsome] at hexponent
        cases hexponent
    | some e =>
        rw [hsome] at hexponent
        exact e.isPart_or_sign_of_mem_text hexponent

theorem underscore_not_mem_text : '_' ∉ n.text := by
  intro h
  rcases n.isPart_or_sign_of_mem_text h with h | h | h <;> revert h <;> decide

theorem isEmpty_and_isEmpty : (n.whole.isEmpty && n.fraction.isEmpty) = false := by
  rcases n.ne_nil with hwhole | ⟨ds, hds, hne⟩
  · simp [hwhole]
  · simp [fraction, Option.mem_def.1 hds, hne]

theorem scanDigits_text (hrest : ∀ c ∈ (n.exponentText ++ rest).head?, c.isDigit = false) :
    scanDigits (n.text ++ rest) = (n.whole, n.fractionText ++ (n.exponentText ++ rest)) := by
  have hhead : ∀ c ∈ (n.fractionText ++ (n.exponentText ++ rest)).head?, c.isDigit = false := by
    unfold fractionText
    cases n.fraction? with
    | none => exact hrest
    | some ds =>
        intro c hc
        obtain rfl := Option.some.inj hc
        rfl
  rw [text, List.append_assoc, List.append_assoc, scanDigits_append_of_head? n.isDigit_whole hhead]

theorem scanFraction_text
    (hrest : ∀ c ∈ (n.exponentText ++ rest).head?, c.isDigit = false ∧ c ≠ '.') :
    scanFraction (n.fractionText ++ (n.exponentText ++ rest)) = (n.fraction, n.exponentText ++ rest) := by
  have hdigits := fun c hc => n.isDigit_of_mem_fraction (c := c) hc
  unfold fractionText
  unfold fraction at hdigits ⊢
  cases hfraction : n.fraction? with
  | some ds =>
      rw [hfraction] at hdigits
      exact scanDigits_append_of_head? hdigits fun c hc => (hrest c hc).1
  | none =>
      cases htext : n.exponentText ++ rest with
      | nil => rfl
      | cons c cs =>
          rw [htext] at hrest
          simp [scanFraction, (hrest c rfl).2]

theorem not_isPart_head?_exponentText {e : Exponent} (he : n.exponent? = some e) (rest : List Char) :
    ∀ c ∈ (n.exponentText ++ rest).head?, c.isDigit = false ∧ c ≠ '.' := by
  intro c hc
  rw [exponentText, he] at hc
  obtain rfl := Option.some.inj hc
  rcases e.mark_eq with h | h <;> rw [h] <;> decide

/-- Where the text goes on with something else, the numeral is found. -/
theorem scan?_text_append (hrest : ∀ c ∈ rest.head?, isPart c = false) :
    scan? (n.text ++ rest) = some (n.decimal, rest) := by
  have hstop : ∀ c ∈ rest.head?, c.isDigit = false ∧ c ≠ '.' ∧ ¬(c = 'e' ∨ c = 'E') := by
    intro c hc
    have := hrest c hc
    simp only [isPart, Bool.or_eq_false_iff, beq_eq_false_iff_ne] at this
    exact ⟨this.1.1.1, this.1.1.2, fun h => h.elim this.1.2 this.2⟩
  have hexponent : ∀ c ∈ (n.exponentText ++ rest).head?, c.isDigit = false ∧ c ≠ '.' := by
    cases he : n.exponent? with
    | some e => exact n.not_isPart_head?_exponentText he rest
    | none =>
        rw [exponentText, he]
        exact fun c hc => ⟨(hstop c hc).1, (hstop c hc).2.1⟩
  have hscan : scanExponent (n.exponentText ++ rest) = (n.exponent?.elim 0 Exponent.value, rest) := by
    unfold exponentText
    cases n.exponent? with
    | some e =>
        have hdigits := scanDigits_eq_nil fun c hc => (hstop c hc).1
        exact (scanExponent_text_append e rest).trans (by rw [hdigits, List.append_nil]; rfl)
    | none =>
        cases rest with
        | nil => rfl
        | cons c cs => exact if_neg (hstop c rfl).2.2
  rw [scan?, n.scanDigits_text fun c hc => (hexponent c hc).1]
  simp only [n.scanFraction_text hexponent, n.isEmpty_and_isEmpty, hscan, Bool.false_eq_true, if_false]
  rfl

/-- No more of the text is left than what follows the numeral. -/
theorem length_scan_le (rest : List Char) :
    (scanExponent (scanFraction (scanDigits (n.text ++ rest)).2).2).2.length ≤ rest.length := by
  cases he : n.exponent? with
  | some e =>
      have hexponent := n.not_isPart_head?_exponentText he rest
      rw [n.scanDigits_text fun c hc => (hexponent c hc).1, n.scanFraction_text hexponent, exponentText, he]
      simp only [Option.elim_some, scanExponent_text_append]
      exact length_scanDigits_le rest
  | none =>
      refine Nat.le_trans (length_scanExponent_le _) ?_
      have htext : n.text ++ rest = n.whole ++ (n.fractionText ++ rest) := by
        simp [text, exponentText, he]
      cases hfraction : n.fraction? with
      | none =>
          refine Nat.le_trans (length_scanFraction_le _) ?_
          rw [htext, fractionText, hfraction, scanDigits_append n.isDigit_whole]
          exact length_scanDigits_le rest
      | some ds =>
          have hpoint : ∀ c ∈ ('.' :: (ds ++ rest)).head?, c.isDigit = false := by
            intro c hc
            obtain rfl := Option.some.inj hc
            rfl
          rw [htext, fractionText, hfraction, Option.elim_some, List.cons_append,
            scanDigits_append_of_head? n.isDigit_whole hpoint]
          simp only [scanFraction, scanDigits_append (n.isDigit_fraction ds hfraction)]
          exact length_scanDigits_le rest

end Text

theorem scan?_eq_some {cs rest : List Char} {d : Decimal} (h : scan? cs = some (d, rest)) :
    rest = (scanExponent (scanFraction (scanDigits cs).2).2).2 := by
  unfold scan? at h
  simp only at h
  split at h
  · cases h
  · exact (congrArg Prod.snd (Option.some.inj h)).symm

/-- What is found is the longest numeral at the start of the text. -/
theorem length_le_of_scan? {n : Numeral} {rest left : List Char} {d : Decimal}
    (h : scan? (n.text ++ rest) = some (d, left)) : left.length ≤ rest.length := by
  rw [scan?_eq_some h]
  exact n.length_scan_le rest

theorem exists_of_scanFraction (cs : List Char) :
    ∃ fraction? : Option (List Char), fraction?.getD [] = (scanFraction cs).1 ∧
      cs = fraction?.elim [] ('.' :: ·) ++ (scanFraction cs).2 ∧
      ∀ ds ∈ fraction?, ∀ c ∈ ds, c.isDigit = true := by
  unfold scanFraction
  split
  next cs =>
    refine ⟨some (scanDigits cs).1, rfl, ?_, ?_⟩
    · rw [Option.elim_some, List.cons_append, scanDigits_fst_append_snd]
    · intro ds hds c hc
      obtain rfl := Option.some.inj hds
      exact isDigit_of_mem_scanDigits hc
  next => exact ⟨none, rfl, rfl, fun ds hds => nomatch hds⟩

/-- What is found is a numeral at the start of the text. -/
theorem exists_of_scan? {cs rest : List Char} {d : Decimal} (h : scan? cs = some (d, rest)) :
    ∃ n : Numeral, cs = n.text ++ rest ∧ n.decimal = d := by
  obtain ⟨fraction?, hfraction, hsnd, hdigits⟩ := exists_of_scanFraction (scanDigits cs).2
  obtain ⟨exponent?, htext, hvalue⟩ : ∃ exponent? : Option Exponent,
      (scanFraction (scanDigits cs).2).2 = exponent?.elim [] Exponent.text ++
        (scanExponent (scanFraction (scanDigits cs).2).2).2 ∧
      exponent?.elim 0 Exponent.value = (scanExponent (scanFraction (scanDigits cs).2).2).1 := by
    rcases exists_of_scanExponent (scanFraction (scanDigits cs).2).2 with hnone | ⟨e, he, hvalue⟩
    · exact ⟨none, by rw [hnone]; rfl, by rw [hnone]; rfl⟩
    · exact ⟨some e, he, hvalue.symm⟩
  have hrest := scan?_eq_some h
  unfold scan? at h
  simp only at h
  split at h
  · cases h
  next hempty =>
    have hne : (scanDigits cs).1 ≠ [] ∨ ∃ ds ∈ fraction?, ds ≠ [] := by
      by_cases hwhole : (scanDigits cs).1 = []
      · rw [← hfraction] at hempty
        cases fraction? with
        | none => simp [hwhole] at hempty
        | some ds => exact .inr ⟨ds, rfl, by simpa [hwhole] using hempty⟩
      · exact .inl hwhole
    refine ⟨⟨(scanDigits cs).1, fraction?, exponent?, hne, fun c hc => isDigit_of_mem_scanDigits hc,
      hdigits⟩, ?_, ?_⟩
    · rw [hrest]
      simp only [text, fractionText, exponentText, List.append_assoc]
      rw [← htext, ← hsnd, scanDigits_fst_append_snd]
    · obtain ⟨rfl, -⟩ := Prod.mk.inj (Option.some.inj h)
      simp only [decimal, fraction, hfraction, hvalue]

theorem scan?_ne_none {cs : List Char} (h : (scanDigits cs).1 ≠ []) : scan? cs ≠ none := by
  simp [scan?, h]

theorem scan?_text_append_ne_none (n : Numeral) (rest : List Char) : scan? (n.text ++ rest) ≠ none := by
  by_cases hwhole : n.whole = []
  · obtain ⟨ds, hds, hne⟩ := n.ne_nil.resolve_left (· hwhole)
    have htext : n.text ++ rest = '.' :: (ds ++ (n.exponentText ++ rest)) := by
      simp [text, hwhole, fractionText, Option.mem_def.1 hds]
    have hdigits : scanDigits ('.' :: (ds ++ (n.exponentText ++ rest))) = ([], '.' :: _) :=
      scanDigits_eq_nil (by rintro c ⟨⟩; rfl)
    rw [htext, scan?, hdigits]
    simp [scanFraction, scanDigits_append (n.isDigit_fraction ds hds), hne]
  · apply scan?_ne_none
    rw [text, List.append_assoc, scanDigits_append n.isDigit_whole]
    simp [hwhole]

theorem scan?_text (n : Numeral) : scan? n.text = some (n.decimal, []) := by
  have hscan := n.scan?_text_append (show ∀ c ∈ ([] : List Char).head?, isPart c = false by simp)
  rwa [List.append_nil] at hscan

/-- The digits after the point are known from the text. -/
theorem scanFraction_scanDigits_text (n : Numeral) : (scanFraction (scanDigits n.text).2).1 = n.fraction := by
  have hexponent : ∀ c ∈ (n.exponentText ++ []).head?, c.isDigit = false ∧ c ≠ '.' := by
    cases he : n.exponent? with
    | some e => exact n.not_isPart_head?_exponentText he []
    | none => simp [exponentText, he]
  have hdigits := n.scanDigits_text fun c hc => (hexponent c hc).1
  rw [List.append_nil] at hdigits
  rw [hdigits, n.scanFraction_text hexponent]

theorem decimal_eq_of_text_eq {n n' : Numeral} (h : n.text = n'.text) : n.decimal = n'.decimal := by
  have hscan := n.scan?_text
  rw [h, n'.scan?_text] at hscan
  exact (congrArg Prod.fst (Option.some.inj hscan)).symm

/-- A text is a numeral exactly if it is read as a number. -/
theorem ofChars?_eq_some_iff {cs : List Char} {d : Decimal} :
    ofChars? cs = some d ↔ ∃ n : Numeral, n.text = cs ∧ n.decimal = d := by
  constructor
  · intro h
    unfold ofChars? at h
    split at h
    next hscan =>
      cases h
      obtain ⟨n, hn, hd⟩ := exists_of_scan? hscan
      exact ⟨n, by rw [hn, List.append_nil], hd⟩
    next => cases h
  · rintro ⟨n, rfl, rfl⟩
    rw [ofChars?, n.scan?_text]

end Numeral

end DeskCalc
