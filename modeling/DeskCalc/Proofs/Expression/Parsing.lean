import DeskCalc.Proofs.Expression.Derivation

/-!
Derivations are found by reading a sentence once from left to right. What has been read is always a chain
of open parentheses, and at each level of it a sum, a product, powers and signs whose right operand is
still to come: the left operands are complete derivations already. The main statement is that a derivation
is found exactly for the tokens that it derives, so that a sentence has only one.
-/

namespace DeskCalc.Parsing

/-- A complete left operand and the operator after it. -/
structure LeftOperand (p : Phrase) (allowed : BinaryOperator → Bool) where
  derivation : Derivation p
  op : BinaryOperator
  isAllowed : allowed op = true

namespace LeftOperand

variable {p : Phrase} {allowed : BinaryOperator → Bool}

def tokens (left : LeftOperand p allowed) : List Token :=
  left.derivation.tokens ++ [.operator left.op]

end LeftOperand

/-- What can stand before an operand within one factor: a sign, or the base of a power. -/
inductive Head
  | sign (s : Sign)
  | base (a : Derivation .atom)

namespace Head

def tokens : Head → List Token
  | sign s => [.operator s.operator]
  | base a => a.tokens ++ [.operator .pow]

def wrap : Head → Derivation .unary → Derivation .unary
  | sign s, u => .signed s u
  | base a, u => .plain (.raise a u)

theorem tokens_wrap (h : Head) (u : Derivation .unary) : (h.wrap u).tokens = h.tokens ++ u.tokens := by
  cases h <;> simp [wrap, tokens, Derivation.tokens]

/-- All heads around an operand, the latest one inside. -/
def wrapAll (heads : List Head) (u : Derivation .unary) : Derivation .unary :=
  heads.foldl (fun inner h => h.wrap inner) u

theorem tokens_wrapAll (heads : List Head) (u : Derivation .unary) :
    (wrapAll heads u).tokens = heads.reverse.flatMap tokens ++ u.tokens := by
  induction heads generalizing u with
  | nil => simp [wrapAll]
  | cons h heads ih =>
      have hstep : wrapAll (h :: heads) u = wrapAll heads (h.wrap u) := rfl
      rw [hstep, ih, tokens_wrap]
      simp

end Head

/-- What stands to the left of the next operand, between the parentheses around it. The heads are those of
the current factor, the latest first. -/
structure Level where
  sum? : Option (LeftOperand .expr BinaryOperator.isAdditive) := none
  product? : Option (LeftOperand .term BinaryOperator.isMultiplicative) := none
  heads : List Head := []

namespace Level

def tokens (l : Level) : List Token :=
  l.sum?.elim [] LeftOperand.tokens ++ l.product?.elim [] LeftOperand.tokens ++
    l.heads.reverse.flatMap Head.tokens

def unary (l : Level) (u : Derivation .unary) : Derivation .unary := Head.wrapAll l.heads u

def term (l : Level) (u : Derivation .unary) : Derivation .term :=
  match l.product? with
  | none => .factor (l.unary u)
  | some left => .multiply left.derivation left.op left.isAllowed (l.unary u)

def expr (l : Level) (u : Derivation .unary) : Derivation .expr :=
  match l.sum? with
  | none => .single (l.term u)
  | some left => .add left.derivation left.op left.isAllowed (l.term u)

/-- What stands to the left of the right operand of `op`, after the left operand `a`. -/
def extend (l : Level) (a : Derivation .atom) (op : BinaryOperator) : Level :=
  if h : op.isAdditive = true then { sum? := some ⟨l.expr (.plain (.base a)), op, h⟩ }
  else if h : op.isMultiplicative = true then
    { sum? := l.sum?, product? := some ⟨l.term (.plain (.base a)), op, h⟩ }
  else { l with heads := .base a :: l.heads }

theorem extend_of_isAdditive (l : Level) (a : Derivation .atom) {op : BinaryOperator}
    (h : op.isAdditive = true) :
    l.extend a op = { sum? := some ⟨l.expr (.plain (.base a)), op, h⟩ } := dif_pos h

theorem extend_of_isMultiplicative (l : Level) (a : Derivation .atom) {op : BinaryOperator}
    (h : op.isMultiplicative = true) :
    l.extend a op = { sum? := l.sum?, product? := some ⟨l.term (.plain (.base a)), op, h⟩ } := by
  rw [extend, dif_neg (BinaryOperator.not_isAdditive h), dif_pos h]

theorem extend_pow (l : Level) (a : Derivation .atom) :
    l.extend a .pow = { l with heads := .base a :: l.heads } := rfl

theorem tokens_term (l : Level) (u : Derivation .unary) :
    l.sum?.elim [] LeftOperand.tokens ++ (l.term u).tokens = l.tokens ++ u.tokens := by
  obtain ⟨sum?, product?, heads⟩ := l
  cases product? <;>
    simp [term, unary, tokens, LeftOperand.tokens, Derivation.tokens, Head.tokens_wrapAll]

theorem tokens_expr (l : Level) (u : Derivation .unary) : (l.expr u).tokens = l.tokens ++ u.tokens := by
  rw [← tokens_term]
  obtain ⟨sum?, product?, heads⟩ := l
  cases sum? <;> simp [expr, LeftOperand.tokens, Derivation.tokens, term, unary]

theorem tokens_extend (l : Level) (a : Derivation .atom) (op : BinaryOperator) :
    (l.extend a op).tokens = l.tokens ++ a.tokens ++ [.operator op] := by
  by_cases hadd : op.isAdditive = true
  · have hexpr := l.tokens_expr (.plain (.base a))
    rw [extend_of_isAdditive l a hadd]
    simp [tokens, LeftOperand.tokens, hexpr, Derivation.tokens]
  by_cases hmul : op.isMultiplicative = true
  · have hterm := l.tokens_term (.plain (.base a))
    simp only [Derivation.tokens] at hterm
    rw [extend_of_isMultiplicative l a hmul, ← hterm]
    simp [tokens, LeftOperand.tokens]
  · obtain rfl := BinaryOperator.eq_pow hadd hmul
    simp [extend_pow, tokens, Head.tokens]

end Level

/-- An open parenthesis, with the function that it belongs to and what stands to the left of both. -/
structure Enclosure where
  function? : Option Elementary
  level : Level

namespace Enclosure

def tokens (e : Enclosure) : List Token :=
  e.level.tokens ++ e.function?.elim [] (fun f => [.call f]) ++ [.opening]

def close (e : Enclosure) (inner : Derivation .expr) : Derivation .atom :=
  match e.function? with
  | none => .group inner
  | some f => .call f inner

theorem tokens_close (e : Enclosure) (inner : Derivation .expr) :
    e.level.tokens ++ (e.close inner).tokens = e.tokens ++ inner.tokens ++ [.closing] := by
  obtain ⟨function?, level⟩ := e
  cases function? <;> simp [close, tokens, Derivation.tokens]

end Enclosure

/-- The state between two tokens. The innermost open parenthesis is the first of the list `outer`. -/
inductive Progress
  | operand (level : Level) (outer : List Enclosure)
  /-- The parenthesis of a function has to follow. -/
  | argument (f : Elementary) (level : Level) (outer : List Enclosure)
  | operator (level : Level) (outer : List Enclosure) (a : Derivation .atom)

namespace Progress

/-- What one more token makes of the state; there is no state if it cannot stand here. -/
def step : Progress → Token → Option Progress
  | operand l outer, .number v => some (operator l outer (.number v))
  | operand l outer, .constant c => some (operator l outer (.constant c))
  | operand l outer, .call f => some (argument f l outer)
  | operand l outer, .opening => some (operand {} (⟨none, l⟩ :: outer))
  | operand l outer, .operator op =>
    op.sign?.map fun s => operand { l with heads := .sign s :: l.heads } outer
  | argument f l outer, .opening => some (operand {} (⟨some f, l⟩ :: outer))
  | operator l outer a, .closing =>
    match outer with
    | [] => none
    | e :: outer => some (operator e.level outer (e.close (l.expr (.plain (.base a)))))
  | operator l outer a, .operator op => some (operand (l.extend a op) outer)
  | _, _ => none

def result? : Progress → Option (Derivation .expr)
  | operator l [] a => some (l.expr (.plain (.base a)))
  | _ => none

/-- The derivation of what has been read with `ts` after it. -/
def parse? (s : Progress) (ts : List Token) : Option (Derivation .expr) :=
  (ts.foldlM step s).bind result?

def tokens : Progress → List Token
  | operand l outer => outer.reverse.flatMap Enclosure.tokens ++ l.tokens
  | argument f l outer => outer.reverse.flatMap Enclosure.tokens ++ l.tokens ++ [.call f]
  | operator l outer a => outer.reverse.flatMap Enclosure.tokens ++ l.tokens ++ a.tokens

theorem tokens_step {s s' : Progress} {t : Token} (h : s.step t = some s') :
    s'.tokens = s.tokens ++ [t] := by
  cases s with
  | operand l outer =>
      cases t with
      | number v | constant c =>
          obtain rfl := Option.some.inj h
          simp [tokens, Derivation.tokens]
      | call f =>
          obtain rfl := Option.some.inj h
          simp [tokens]
      | opening =>
          obtain rfl := Option.some.inj h
          simp [tokens, Enclosure.tokens, Level.tokens]
      | operator op =>
          obtain ⟨sign, hsign, rfl⟩ := Option.map_eq_some_iff.mp h
          obtain rfl := BinaryOperator.sign?_eq_some_iff.mp hsign
          simp [tokens, Level.tokens, Head.tokens]
      | sign _ | closing => cases h
  | argument f l outer =>
      cases t with
      | opening =>
          obtain rfl := Option.some.inj h
          simp [tokens, Enclosure.tokens, Level.tokens]
      | _ => cases h
  | operator l outer a =>
      cases t with
      | operator op =>
          obtain rfl := Option.some.inj h
          simp [tokens, Level.tokens_extend]
      | closing =>
          cases outer with
          | nil => cases h
          | cons e outer =>
              obtain rfl := Option.some.inj h
              have hclose := e.tokens_close (l.expr (.plain (.base a)))
              have hexpr := l.tokens_expr (.plain (.base a))
              simp only [Derivation.tokens] at hexpr
              simp [tokens, hclose, hexpr]
      | _ => cases h

theorem tokens_foldlM_step {s s' : Progress} {ts : List Token} (h : ts.foldlM step s = some s') :
    s'.tokens = s.tokens ++ ts := by
  induction ts generalizing s with
  | nil =>
      obtain rfl := Option.some.inj h
      simp
  | cons t ts ih =>
      obtain ⟨s₁, hstep, hrest⟩ := Option.bind_eq_some_iff.mp h
      rw [ih hrest, tokens_step hstep]
      simp

theorem tokens_of_result? {s : Progress} {d : Derivation .expr} (h : s.result? = some d) :
    d.tokens = s.tokens := by
  cases s with
  | operand | argument => cases h
  | operator l outer a =>
      cases outer with
      | nil =>
          obtain rfl := Option.some.inj h
          simp [Level.tokens_expr, tokens, Derivation.tokens]
      | cons => cases h

/-- A derivation that is found derives what has been read. -/
theorem tokens_of_parse? {s : Progress} {ts : List Token} {d : Derivation .expr}
    (h : s.parse? ts = some d) : d.tokens = s.tokens ++ ts := by
  obtain ⟨s', hsteps, hresult⟩ := Option.bind_eq_some_iff.mp h
  rw [tokens_of_result? hresult, tokens_foldlM_step hsteps]

end Progress

/-! ### Every sentence is read

Reading a phrase changes only the part of a level that the phrase can extend: an atom changes nothing, a
power or a signed factor changes the heads, a term the product as well. -/

namespace Level

/-- A level on which nothing waits that binds tighter than the phrase `p`. -/
def Admits (l : Level) : Phrase → Prop
  | .expr => l = {}
  | .term => l.product? = none ∧ l.heads = []
  | .unary | .power | .atom => True

/-- The level `l'` and the atom `a` after it hold the phrase `d`, which was read from the level `l` on. -/
def Holds (l l' : Level) (a : Derivation .atom) : {p : Phrase} → Derivation p → Prop
  | .expr, d => l'.expr (.plain (.base a)) = d
  | .term, d => l'.sum? = l.sum? ∧ l'.term (.plain (.base a)) = d
  | .unary, d =>
    l'.sum? = l.sum? ∧ l'.product? = l.product? ∧ l'.unary (.plain (.base a)) = l.unary d
  | .power, d =>
    l'.sum? = l.sum? ∧ l'.product? = l.product? ∧ l'.unary (.plain (.base a)) = l.unary (.plain d)
  | .atom, d => l' = l ∧ a = d

end Level

namespace Progress

theorem foldlM_step_infix {ts us : List Token} {l l₁ : Level} {outer : List Enclosure}
    {a₁ : Derivation .atom} {op : BinaryOperator} {s : Progress}
    (hleft : ts.foldlM step (operand l outer) = some (operator l₁ outer a₁))
    (hright : us.foldlM step (operand (l₁.extend a₁ op) outer) = some s) :
    (ts ++ .operator op :: us).foldlM step (operand l outer) = some s := by
  simp only [List.foldlM_append, hleft, Option.bind_eq_bind, Option.bind_some, List.foldlM_cons, step,
    hright]

theorem foldlM_step_closing {ts : List Token} {l l' : Level} {outer : List Enclosure} {e : Enclosure}
    {a : Derivation .atom}
    (hinner : ts.foldlM step (operand l (e :: outer)) = some (operator l' (e :: outer) a)) :
    (ts ++ [Token.closing]).foldlM step (operand l (e :: outer)) =
      some (operator e.level outer (e.close (l'.expr (.plain (.base a))))) := by
  simp only [List.foldlM_append, hinner, Option.bind_eq_bind, Option.bind_some, List.foldlM_cons, step]
  rfl

/-- Reading the tokens of a derivation builds up this derivation. -/
theorem foldlM_step_tokens {p : Phrase} (d : Derivation p) (l : Level) (outer : List Enclosure)
    (hadmits : l.Admits p) :
    ∃ l' a, d.tokens.foldlM step (operand l outer) = some (operator l' outer a) ∧
      Level.Holds l l' a d := by
  induction d generalizing l outer with
  | number v => exact ⟨l, .number v, rfl, rfl, rfl⟩
  | constant c => exact ⟨l, .constant c, rfl, rfl, rfl⟩
  | call f e ih =>
      obtain ⟨l', a, hread, rfl⟩ := ih {} (⟨some f, l⟩ :: outer) rfl
      exact ⟨l, _, foldlM_step_closing hread, rfl, rfl⟩
  | group e ih =>
      obtain ⟨l', a, hread, rfl⟩ := ih {} (⟨none, l⟩ :: outer) rfl
      exact ⟨l, _, foldlM_step_closing hread, rfl, rfl⟩
  | base a ih =>
      obtain ⟨l', a', hread, rfl, rfl⟩ := ih l outer trivial
      exact ⟨l', a', hread, rfl, rfl, rfl⟩
  | raise a e iha ihe =>
      obtain ⟨l₁, a₁, hreada, rfl, rfl⟩ := iha l outer trivial
      obtain ⟨l', a', hread, hsum, hproduct, hunary⟩ := ihe (l₁.extend a₁ .pow) outer trivial
      exact ⟨l', a', foldlM_step_infix hreada hread, hsum, hproduct, hunary⟩
  | plain q ih =>
      obtain ⟨l', a', hread, hholds⟩ := ih l outer trivial
      exact ⟨l', a', hread, hholds⟩
  | signed s u ih =>
      obtain ⟨l', a', hread, hholds⟩ := ih { l with heads := .sign s :: l.heads } outer trivial
      refine ⟨l', a', ?_, hholds⟩
      have hsign := BinaryOperator.sign?_eq_some_iff.mpr (rfl : s.operator = s.operator)
      simp only [Derivation.tokens, List.foldlM_cons, step, hsign, Option.map_some,
        Option.bind_eq_bind, Option.bind_some, hread]
  | factor u ih =>
      obtain ⟨l', a', hread, hsum, hproduct, hunary⟩ := ih l outer trivial
      refine ⟨l', a', hread, hsum, ?_⟩
      rw [Level.term, hproduct, hadmits.1, hunary, Level.unary, hadmits.2]
      rfl
  | multiply left op h right ihl ihr =>
      obtain ⟨l₁, a₁, hreadl, hsuml, hterm⟩ := ihl l outer hadmits
      obtain ⟨l', a', hread, hsum, hproduct, hunary⟩ := ihr (l₁.extend a₁ op) outer trivial
      rw [Level.extend_of_isMultiplicative l₁ a₁ h] at hsum hproduct hunary
      refine ⟨l', a', foldlM_step_infix hreadl hread, hsum.trans hsuml, ?_⟩
      rw [Level.term, hproduct, hunary, hterm]
      rfl
  | single t ih =>
      subst hadmits
      obtain ⟨l', a', hread, hsum, hterm⟩ := ih {} outer ⟨rfl, rfl⟩
      refine ⟨l', a', hread, ?_⟩
      rw [Level.Holds, Level.expr, hsum, hterm]
  | add left op h right ihl ihr =>
      obtain ⟨l₁, a₁, hreadl, hexpr⟩ := ihl l outer hadmits
      have hlevel := Level.extend_of_isAdditive l₁ a₁ h
      obtain ⟨l', a', hread, hsum, hterm⟩ := ihr (l₁.extend a₁ op) outer (by rw [hlevel]; exact ⟨rfl, rfl⟩)
      rw [hlevel] at hsum
      refine ⟨l', a', foldlM_step_infix hreadl hread, ?_⟩
      rw [Level.Holds, Level.expr, hsum, hterm, ← hexpr]

theorem parse?_tokens (d : Derivation .expr) : (operand {} []).parse? d.tokens = some d := by
  obtain ⟨l', a, hread, hholds⟩ := foldlM_step_tokens d {} [] rfl
  rw [parse?, hread]
  exact congrArg some hholds

/-- A derivation is found exactly for the tokens that it derives. -/
theorem parse?_eq_some_iff {ts : List Token} {d : Derivation .expr} :
    (operand {} []).parse? ts = some d ↔ d.tokens = ts := by
  constructor
  · intro h
    rw [tokens_of_parse? h]
    rfl
  · rintro rfl
    exact parse?_tokens d

end Progress

end DeskCalc.Parsing

namespace DeskCalc.Derivation

theorem tokens_injective : Function.Injective (tokens : Derivation .expr → List Token) := by
  intro d d' heq
  have h := Parsing.Progress.parse?_tokens d
  rw [heq, Parsing.Progress.parse?_tokens d'] at h
  exact (Option.some.inj h).symm

end DeskCalc.Derivation
