import DeskCalc.Proofs.Expression.Parsing
import Mathlib.Logic.ExistsUnique

/-!
The reverse Polish form of a token list is the postorder listing of its derivation. What the yard keeps is
read off the progress of parsing: the pending entries are the operators, signs and functions whose operands
are still open, and the output lists the left operands that are complete. The yard therefore accepts the
sentences of the grammar, except those at which it would hold too many pending entries at once.
-/

namespace DeskCalc

namespace Pending

/-- Whether only a closing parenthesis completes the entry. -/
def isOpen : Pending → Bool
  | opening | call _ => true
  | sign _ | operator _ => false

theorem not_yieldsTo_of_isOpen {op : BinaryOperator} {x : Pending} (h : x.isOpen = true) :
    x.yieldsTo op = false := by
  cases x with
  | opening | call _ => rfl
  | sign _ | operator _ => cases h

theorem yieldsTo_of_isAdditive {op : BinaryOperator} {x : Pending} (hop : op.isAdditive = true)
    (hx : x.isOpen = false) : x.yieldsTo op = true := by
  cases x with
  | opening | call _ => cases hx
  | sign s => cases op <;> simp_all [BinaryOperator.isAdditive, yieldsTo, BinaryOperator.strength]
  | operator top =>
      cases op <;> cases top <;>
        simp_all [BinaryOperator.isAdditive, yieldsTo, BinaryOperator.strength]

theorem sign_yieldsTo_of_isMultiplicative {op : BinaryOperator} (s : Sign)
    (hop : op.isMultiplicative = true) : (sign s).yieldsTo op = true := by
  cases op <;> simp_all [BinaryOperator.isMultiplicative, yieldsTo, BinaryOperator.strength]

theorem operator_yieldsTo_of_isMultiplicative {op top : BinaryOperator}
    (hop : op.isMultiplicative = true) : (operator top).yieldsTo op = !top.isAdditive := by
  cases op <;> cases top <;>
    simp_all [BinaryOperator.isMultiplicative, BinaryOperator.isAdditive, yieldsTo,
      BinaryOperator.strength]

theorem not_yieldsTo_pow (x : Pending) : x.yieldsTo .pow = false := by
  cases x with
  | opening | call _ | sign _ => rfl
  | operator top => cases top <;> rfl

end Pending

namespace Yard

/-- The states after each of the tokens, up to the first that cannot stand in its place. The limit on
nesting has no part in them. -/
def states (s : Yard) : List Token → List Yard
  | [] => []
  | t :: rest =>
    match s.step rest t with
    | .error _ => []
    | .ok s' => s' :: s'.states rest

/-- No more entries than the limit allows are pending after any of the tokens. -/
def StaysWithinLimit (s : Yard) (ts : List Token) : Prop :=
  ∀ s' ∈ s.states ts, s'.pending.length ≤ depthLimit

/-! ### What is written out at an operator, at a closing parenthesis and at the end -/

theorem release_append {op : BinaryOperator} {ps qs : List Pending} (output : List Token)
    (hps : ∀ x ∈ ps, x.yieldsTo op = true) (hqs : ∀ x ∈ qs.head?, x.yieldsTo op = false) :
    release op (ps ++ qs) output = (qs, (ps.map Pending.token).reverse ++ output) := by
  induction ps generalizing output with
  | nil =>
      cases qs with
      | nil => rfl
      | cons x qs => simp [release, hqs x rfl]
  | cons x ps ih =>
      have hx := hps x List.mem_cons_self
      rw [List.cons_append, release, if_pos hx, ih _ fun y hy => hps y (List.mem_cons_of_mem x hy)]
      simp

theorem close?_append {ps qs : List Pending} (output : List Token) (hps : ∀ x ∈ ps, x.isOpen = false) :
    close? (ps ++ qs) output = close? qs ((ps.map Pending.token).reverse ++ output) := by
  induction ps generalizing output with
  | nil => rfl
  | cons x ps ih =>
      have hx := hps x List.mem_cons_self
      have hrest := ih (x.token :: output) fun y hy => hps y (List.mem_cons_of_mem x hy)
      cases x with
      | opening | call _ => cases hx
      | sign _ | operator _ => simpa [close?] using hrest

theorem close?_opening {ps : List Pending} (output : List Token)
    (h : ∀ f, ps.head? ≠ some (.call f)) : close? (.opening :: ps) output = some (ps, output) := by
  cases ps with
  | nil => rfl
  | cons x ps =>
      cases x with
      | call f => exact absurd rfl (h f)
      | opening | sign _ | operator _ => rfl

theorem drain_append {ps qs : List Pending} (output : List Token) (hps : ∀ x ∈ ps, x.isOpen = false) :
    drain (ps ++ qs) output = drain qs ((ps.map Pending.token).reverse ++ output) := by
  induction ps generalizing output with
  | nil => rfl
  | cons x ps ih =>
      have hx := hps x List.mem_cons_self
      have hrest := ih (x.token :: output) fun y hy => hps y (List.mem_cons_of_mem x hy)
      cases x with
      | opening | call _ => cases hx
      | sign _ | operator _ => simpa [drain] using hrest

theorem eq_opening_of_opensGroup {t : Token} {ts : List Token} (h : opensGroup (t :: ts) = true) :
    t = .opening := by
  cases t with
  | opening => rfl
  | _ => cases h

theorem run_call_of_not_opensGroup (s : Yard) (f : Elementary) {ts : List Token}
    (hts : opensGroup ts = false) : (s.run (.call f :: ts)).toOption = none := by
  cases hexpects : s.expectsOperand <;> simp [run, step, hexpects, hts, Except.toOption]

theorem staysWithinLimit_of_run {s : Yard} {ts r : List Token} (h : s.run ts = .ok r) :
    s.StaysWithinLimit ts := by
  induction ts generalizing s with
  | nil => intro s' hs'; cases hs'
  | cons t ts ih =>
      rw [run] at h
      intro s' hs'
      rw [states] at hs'
      cases hstep : s.step ts t with
      | error fault =>
          rw [hstep] at hs'
          cases hs'
      | ok s₁ =>
          simp only [hstep] at h hs'
          split at h
          · cases h
          · rename_i hlimit
            rcases List.mem_cons.mp hs' with rfl | hmem
            · exact Nat.le_of_not_lt hlimit
            · exact ih h s' hmem

end Yard

namespace Parsing

namespace Head

def pending : Head → Pending
  | sign s => .sign s
  | base _ => .operator .pow

/-- What of a head is written out before its operand. -/
def listing : Head → List Token
  | sign _ => []
  | base a => a.postorder

theorem postorder_wrapAll (heads : List Head) (u : Derivation .unary) :
    (wrapAll heads u).postorder =
      heads.reverse.flatMap listing ++ u.postorder ++ (heads.map pending).map Pending.token := by
  induction heads generalizing u with
  | nil => simp [wrapAll]
  | cons h heads ih =>
      have hstep : wrapAll (h :: heads) u = wrapAll heads (h.wrap u) := rfl
      have hwrap : (h.wrap u).postorder = h.listing ++ u.postorder ++ [h.pending.token] := by
        cases h <;> simp [wrap, listing, pending, Pending.token, Derivation.postorder]
      rw [hstep, ih, hwrap]
      simp

end Head

namespace LeftOperand

variable {p : Phrase} {allowed : BinaryOperator → Bool}

def pending (left : LeftOperand p allowed) : Pending := .operator left.op

end LeftOperand

namespace Level

/-- What of a level is written out before its last operand. -/
def listing (l : Level) : List Token :=
  l.sum?.elim [] (·.derivation.postorder) ++ l.product?.elim [] (·.derivation.postorder) ++
    l.heads.reverse.flatMap Head.listing

/-- What is pending within the current term, the latest first. -/
def termPending (l : Level) : List Pending :=
  l.heads.map Head.pending ++ l.product?.elim [] fun left => [left.pending]

def pending (l : Level) : List Pending :=
  l.termPending ++ l.sum?.elim [] fun left => [left.pending]

theorem listing_empty : ({} : Level).listing = [] := rfl

theorem pending_empty : ({} : Level).pending = [] := rfl

theorem postorder_term (l : Level) (u : Derivation .unary) :
    l.sum?.elim [] (·.derivation.postorder) ++ (l.term u).postorder =
      l.listing ++ u.postorder ++ l.termPending.map Pending.token := by
  obtain ⟨sum?, product?, heads⟩ := l
  cases product? <;>
    simp [term, unary, listing, termPending, LeftOperand.pending, Pending.token, Derivation.postorder,
      Head.postorder_wrapAll]

theorem postorder_expr (l : Level) (u : Derivation .unary) :
    (l.expr u).postorder = l.listing ++ u.postorder ++ l.pending.map Pending.token := by
  rw [pending, List.map_append, ← List.append_assoc, ← postorder_term]
  obtain ⟨sum?, product?, heads⟩ := l
  cases sum? <;>
    simp [expr, term, unary, LeftOperand.pending, Pending.token, Derivation.postorder]

theorem isOpen_of_mem_pending {l : Level} {x : Pending} (h : x ∈ l.pending) : x.isOpen = false := by
  obtain ⟨sum?, product?, heads⟩ := l
  rcases List.mem_append.mp h with hterm | hsum
  · rcases List.mem_append.mp hterm with hhead | hproduct
    · obtain ⟨head, -, rfl⟩ := List.mem_map.mp hhead
      cases head <;> rfl
    · cases product? with
      | none => cases hproduct
      | some left =>
          obtain rfl := List.mem_singleton.mp hproduct
          rfl
  · cases sum? with
    | none => cases hsum
    | some left =>
        obtain rfl := List.mem_singleton.mp hsum
        rfl

theorem yieldsTo_of_mem_termPending {l : Level} {op : BinaryOperator}
    (hop : op.isMultiplicative = true) {x : Pending} (h : x ∈ l.termPending) : x.yieldsTo op = true := by
  obtain ⟨sum?, product?, heads⟩ := l
  rcases List.mem_append.mp h with hhead | hproduct
  · obtain ⟨head, -, rfl⟩ := List.mem_map.mp hhead
    cases head with
    | sign s => exact Pending.sign_yieldsTo_of_isMultiplicative s hop
    | base a => exact Pending.operator_yieldsTo_of_isMultiplicative hop
  · cases product? with
    | none => cases hproduct
    | some left =>
        obtain rfl := List.mem_singleton.mp hproduct
        rw [LeftOperand.pending, Pending.operator_yieldsTo_of_isMultiplicative hop]
        simpa using BinaryOperator.not_isAdditive left.isAllowed

/-- What is released before `op` are the entries whose right operand ends with `a`; what stays pending and
what is written out are those of the level that `op` leads to. -/
theorem release_pending (l : Level) (a : Derivation .atom) (op : BinaryOperator) (before : List Token)
    {around : List Pending} (haround : ∀ x ∈ around.head?, x.isOpen = true) :
    ∃ kept, Yard.release op (l.pending ++ around) (before ++ l.listing ++ a.postorder).reverse =
        (kept, (before ++ (l.extend a op).listing).reverse) ∧
      .operator op :: kept = (l.extend a op).pending ++ around := by
  have hkept : ∀ x ∈ around.head?, x.yieldsTo op = false :=
    fun x hx => Pending.not_yieldsTo_of_isOpen (haround x hx)
  by_cases hadd : op.isAdditive = true
  · refine ⟨around, ?_, ?_⟩
    · have hyield : ∀ x ∈ l.pending, x.yieldsTo op = true :=
        fun x hx => Pending.yieldsTo_of_isAdditive hadd (isOpen_of_mem_pending hx)
      have hexpr := l.postorder_expr (.plain (.base a))
      rw [Yard.release_append _ hyield hkept, extend_of_isAdditive l a hadd]
      simp [listing, hexpr, Derivation.postorder]
    · rw [extend_of_isAdditive l a hadd]
      rfl
  by_cases hmul : op.isMultiplicative = true
  · refine ⟨l.sum?.elim [] (fun left => [left.pending]) ++ around, ?_, ?_⟩
    · have hyield : ∀ x ∈ l.termPending, x.yieldsTo op = true :=
        fun x hx => yieldsTo_of_mem_termPending hmul hx
      have hsum : ∀ x ∈ (l.sum?.elim [] (fun left => [left.pending]) ++ around).head?,
          x.yieldsTo op = false := by
        cases hl : l.sum? with
        | none => exact hkept
        | some left =>
            intro x hx
            obtain rfl := Option.some.inj hx
            rw [LeftOperand.pending, Pending.operator_yieldsTo_of_isMultiplicative hmul, left.isAllowed]
            rfl
      have hterm := l.postorder_term (.plain (.base a))
      simp only [Derivation.postorder] at hterm
      rw [pending, List.append_assoc, Yard.release_append _ hyield hsum,
        extend_of_isMultiplicative l a hmul, ← List.reverse_append, List.append_assoc, List.append_assoc,
        ← List.append_assoc l.listing, ← hterm]
      simp [listing]
    · rw [extend_of_isMultiplicative l a hmul]
      rfl
  · obtain rfl := BinaryOperator.eq_pow hadd hmul
    refine ⟨l.pending ++ around, ?_, rfl⟩
    have hrelease : Yard.release .pow ([] ++ (l.pending ++ around))
        (before ++ l.listing ++ a.postorder).reverse = _ :=
      Yard.release_append _ (fun x hx => by cases hx) fun x _ => Pending.not_yieldsTo_pow x
    rw [List.nil_append] at hrelease
    rw [hrelease, extend_pow]
    simp [listing, Head.listing]

end Level

namespace Enclosure

def pending (e : Enclosure) : List Pending :=
  .opening :: (e.function?.elim [] (fun f => [.call f]) ++ e.level.pending)

theorem isOpen_of_mem_head? {outer : List Enclosure} {x : Pending}
    (h : x ∈ (outer.flatMap Enclosure.pending).head?) : x.isOpen = true := by
  cases outer with
  | nil => cases h
  | cons e outer =>
      obtain rfl := Option.some.inj h
      rfl

/-- No function waits for a parenthesis on top of what is pending in a level. -/
theorem head?_pending_ne_call (l : Level) (outer : List Enclosure) (f : Elementary) :
    (l.pending ++ outer.flatMap pending).head? ≠ some (.call f) := by
  intro hhead
  cases hl : l.pending with
  | nil =>
      rw [hl] at hhead
      cases outer <;> cases hhead
  | cons x xs =>
      rw [hl] at hhead
      obtain rfl := Option.some.inj hhead
      have hx := Level.isOpen_of_mem_pending (hl ▸ List.mem_cons_self)
      cases hx

theorem close?_pending (e : Enclosure) (inner : Derivation .expr) (before : List Token)
    (outer : List Enclosure) :
    Yard.close? (e.pending ++ outer.flatMap pending) (before ++ inner.postorder).reverse =
      some (e.level.pending ++ outer.flatMap pending, (before ++ (e.close inner).postorder).reverse) := by
  obtain ⟨function?, level⟩ := e
  cases function? with
  | none => exact Yard.close?_opening _ (head?_pending_ne_call level outer)
  | some f => simp [pending, Yard.close?, close, Derivation.postorder]

end Enclosure

namespace Progress

def yard : Progress → Yard
  | operand l outer =>
    ⟨(outer.reverse.flatMap (·.level.listing) ++ l.listing).reverse,
      l.pending ++ outer.flatMap Enclosure.pending, true⟩
  | argument f l outer =>
    ⟨(outer.reverse.flatMap (·.level.listing) ++ l.listing).reverse,
      .call f :: (l.pending ++ outer.flatMap Enclosure.pending), true⟩
  | operator l outer a =>
    ⟨(outer.reverse.flatMap (·.level.listing) ++ l.listing ++ a.postorder).reverse,
      l.pending ++ outer.flatMap Enclosure.pending, false⟩

/-- The function whose parenthesis has to follow, if there is one. -/
def awaits? : Progress → Option Elementary
  | argument f _ _ => some f
  | operand _ _ | operator _ _ _ => none

/-- One token changes the state of the yard as it changes the progress of parsing, unless the token and
those after it show that a function has no parenthesis. -/
theorem toOption_step_yard (s : Progress) (t : Token) (rest : List Token)
    (hcall : ∀ f, t = .call f → Yard.opensGroup rest = true)
    (hawaits : ∀ f ∈ s.awaits?, t = .opening) :
    (s.yard.step rest t).toOption = (s.step t).map yard := by
  cases s with
  | operand l outer =>
      cases t with
      | number v | constant c => simp [yard, Yard.step, step, Except.toOption, Derivation.postorder]
      | call f => simp [yard, Yard.step, step, Except.toOption, hcall f rfl]
      | opening =>
          simp [yard, Yard.step, step, Except.toOption, Enclosure.pending, Level.pending_empty,
            Level.listing_empty]
      | operator op =>
          cases hsign : op.sign? with
          | none => simp [yard, Yard.step, step, Except.toOption, hsign]
          | some s =>
              simp [yard, Yard.step, step, Except.toOption, hsign, Level.pending, Level.termPending,
                Level.listing, Head.pending, Head.listing]
      | sign _ | closing => rfl
  | argument f l outer =>
      obtain rfl := hawaits f rfl
      simp [yard, Yard.step, step, Except.toOption, Enclosure.pending, Level.pending_empty,
        Level.listing_empty]
  | operator l outer a =>
      cases t with
      | operator op =>
          have hopen := fun x (hx : x ∈ (outer.flatMap Enclosure.pending).head?) =>
            Enclosure.isOpen_of_mem_head? hx
          obtain ⟨kept, hrelease, hkept⟩ := l.release_pending a op (outer.reverse.flatMap (·.level.listing)) hopen
          simp only [yard, Yard.step, step, hrelease, hkept, Bool.false_eq_true, if_false, Option.map_some]
          rfl
      | closing =>
          have hpending := fun x (hx : x ∈ l.pending) => Level.isOpen_of_mem_pending hx
          cases outer with
          | nil =>
              simp only [yard, Yard.step, step, List.flatMap_nil, Yard.close?_append _ hpending,
                Yard.close?, Bool.false_eq_true, if_false, Option.map_none]
              rfl
          | cons e outer =>
              have hexpr := l.postorder_expr (.plain (.base a))
              have hclose := e.close?_pending (l.expr (.plain (.base a)))
                (outer.reverse.flatMap (·.level.listing) ++ e.level.listing) outer
              have houtput : (l.pending.map Pending.token).reverse ++
                  ((e :: outer).reverse.flatMap (·.level.listing) ++ l.listing ++ a.postorder).reverse =
                    (outer.reverse.flatMap (·.level.listing) ++ e.level.listing ++
                      (l.expr (.plain (.base a))).postorder).reverse := by
                rw [hexpr]
                simp [Derivation.postorder]
              simp only [yard, Yard.step, step, List.flatMap_cons, Yard.close?_append _ hpending,
                houtput, hclose, Bool.false_eq_true, if_false, Option.map_some]
              rfl
      | _ => rfl

/-- Without its parenthesis a function is no part of a sentence. -/
theorem parse?_eq_none_of_awaits {s : Progress} {f : Elementary} {ts : List Token}
    (hawaits : s.awaits? = some f) (hts : Yard.opensGroup ts = false) : s.parse? ts = none := by
  cases s with
  | operand | operator => cases hawaits
  | argument g l outer =>
      cases ts with
      | nil => rfl
      | cons t ts =>
          cases t with
          | opening => cases hts
          | _ => rfl

theorem parse?_cons (s : Progress) (t : Token) (ts : List Token) :
    s.parse? (t :: ts) = (s.step t).bind fun s' => s'.parse? ts := by
  simp [parse?, List.foldlM_cons, Option.bind_assoc]

theorem parse?_call_of_not_opensGroup (s : Progress) (f : Elementary) {ts : List Token}
    (hts : Yard.opensGroup ts = false) : s.parse? (.call f :: ts) = none := by
  rw [parse?_cons]
  cases s with
  | operand l outer => exact parse?_eq_none_of_awaits rfl hts
  | argument | operator => rfl

/-- Only a function makes the state wait for a parenthesis. -/
theorem eq_call_of_step {s s' : Progress} {t : Token} {f : Elementary} (h : s.step t = some s')
    (hawaits : s'.awaits? = some f) : t = .call f := by
  cases s with
  | operand l outer =>
      cases t with
      | call g =>
          obtain rfl := Option.some.inj h
          obtain rfl := Option.some.inj hawaits
          rfl
      | number _ | constant _ | opening =>
          obtain rfl := Option.some.inj h
          cases hawaits
      | operator op =>
          obtain ⟨sign, -, rfl⟩ := Option.map_eq_some_iff.mp h
          cases hawaits
      | sign _ | closing => cases h
  | argument g l outer =>
      cases t with
      | opening =>
          obtain rfl := Option.some.inj h
          cases hawaits
      | _ => cases h
  | operator l outer a =>
      cases t with
      | operator op =>
          obtain rfl := Option.some.inj h
          cases hawaits
      | closing =>
          cases outer with
          | nil => cases h
          | cons e outer =>
              obtain rfl := Option.some.inj h
              cases hawaits
      | _ => cases h

/-- At the end everything pending is written out, unless a parenthesis is still open. -/
theorem toOption_run_nil (s : Progress) : (s.yard.run []).toOption = s.result?.map Derivation.postorder := by
  cases s with
  | operand | argument => rfl
  | operator l outer a =>
      have hpending := fun x (hx : x ∈ l.pending) => Level.isOpen_of_mem_pending hx
      cases outer with
      | nil =>
          have hexpr := l.postorder_expr (.plain (.base a))
          simp only [yard, Yard.run, result?, List.flatMap_nil, Yard.drain_append _ hpending, Yard.drain,
            Bool.false_eq_true, if_false, Option.map_some, hexpr]
          simp [Except.toOption, Derivation.postorder]
      | cons e outer =>
          simp only [yard, Yard.run, result?, List.flatMap_cons, Yard.drain_append _ hpending]
          rfl

/-- Within the limit the yard writes out the postorder listing of what is parsed. -/
theorem toOption_run_yard (s : Progress) (ts : List Token)
    (hawaits : ∀ f ∈ s.awaits?, Yard.opensGroup ts = true) (hlimit : s.yard.StaysWithinLimit ts) :
    (s.yard.run ts).toOption = (s.parse? ts).map Derivation.postorder := by
  induction ts generalizing s with
  | nil => exact toOption_run_nil s
  | cons t ts ih =>
      by_cases hlone : ∃ f, t = .call f ∧ Yard.opensGroup ts = false
      · obtain ⟨f, rfl, hts⟩ := hlone
        rw [Yard.run_call_of_not_opensGroup s.yard f hts, parse?_call_of_not_opensGroup s f hts]
        rfl
      · have hcall : ∀ f, t = .call f → Yard.opensGroup ts = true :=
          fun f hf => Bool.of_not_eq_false fun hts => hlone ⟨f, hf, hts⟩
        have hopening : ∀ f ∈ s.awaits?, t = .opening :=
          fun f hf => Yard.eq_opening_of_opensGroup (hawaits f hf)
        have hsim := toOption_step_yard s t ts hcall hopening
        rw [parse?_cons, Yard.run]
        cases hyard : s.yard.step ts t with
        | error fault =>
            rw [hyard] at hsim
            rw [Option.map_eq_none_iff.mp hsim.symm]
            rfl
        | ok y =>
            rw [hyard] at hsim
            obtain ⟨s', hstep, rfl⟩ := Option.map_eq_some_iff.mp hsim.symm
            have hstates : s.yard.states (t :: ts) = s'.yard :: s'.yard.states ts := by
              rw [Yard.states, hyard]
            have hlength := hlimit s'.yard (hstates ▸ List.mem_cons_self)
            have hrest : s'.yard.StaysWithinLimit ts :=
              fun y hy => hlimit y (hstates ▸ List.mem_cons_of_mem _ hy)
            rw [hstep]
            simp only [if_neg (Nat.not_lt.mpr hlength), Option.bind_some]
            exact ih s' (fun f hf => hcall f (eq_call_of_step hstep hf)) hrest

/-- What can be parsed is written out, unless the limit stops it. -/
theorem run_yard_of_parse? {s : Progress} {ts : List Token} {d : Derivation .expr}
    (h : s.parse? ts = some d) :
    s.yard.run ts = .ok d.postorder ∨ s.yard.run ts = .error .nestedTooDeeply := by
  induction ts generalizing s with
  | nil =>
      have hform := toOption_run_nil s
      rw [show s.result? = some d from h] at hform
      cases hrun : s.yard.run [] with
      | error fault => rw [hrun] at hform; cases hform
      | ok r =>
          rw [hrun] at hform
          exact .inl (congrArg Except.ok (Option.some.inj hform))
  | cons t ts ih =>
      have hcall : ∀ f, t = .call f → Yard.opensGroup ts = true := by
        rintro f rfl
        refine Bool.of_not_eq_false fun hts => ?_
        rw [parse?_call_of_not_opensGroup s f hts] at h
        cases h
      have hopening : ∀ f ∈ s.awaits?, t = .opening := by
        intro f hf
        have hgroup : Yard.opensGroup (t :: ts) = true := Bool.of_not_eq_false fun hts => by
          rw [parse?_eq_none_of_awaits hf hts] at h
          cases h
        exact Yard.eq_opening_of_opensGroup hgroup
      rw [parse?_cons] at h
      obtain ⟨s', hstep, hrest⟩ := Option.bind_eq_some_iff.mp h
      have hsim := toOption_step_yard s t ts hcall hopening
      rw [hstep] at hsim
      rw [Yard.run]
      cases hyard : s.yard.step ts t with
      | error fault => rw [hyard] at hsim; cases hsim
      | ok y =>
          rw [hyard] at hsim
          obtain rfl := Option.some.inj hsim
          by_cases hlimit : Yard.depthLimit < s'.yard.pending.length
          · exact .inr (if_pos hlimit)
          · simp only [if_neg hlimit]
            exact ih hrest

end Progress

end Parsing

/-- Within the limit the reverse Polish form is that of the derivation, if there is one. -/
theorem Token.toOption_toPolish {ts : List Token} (hlimit : Yard.StaysWithinLimit {} ts) :
    (toPolish ts).toOption = ((Parsing.Progress.operand {} []).parse? ts).map Derivation.postorder :=
  Parsing.Progress.toOption_run_yard (.operand {} []) ts (fun f hf => by cases hf) hlimit

theorem Token.toPolish_tokens {d : Derivation .expr} (hlimit : Yard.StaysWithinLimit {} d.tokens) :
    toPolish d.tokens = .ok d.postorder := by
  have hform := toOption_toPolish hlimit
  rw [Parsing.Progress.parse?_tokens] at hform
  cases h : toPolish d.tokens with
  | error fault => rw [h] at hform; cases hform
  | ok r =>
      rw [h] at hform
      exact congrArg Except.ok (Option.some.inj hform)

/-- A sentence has no fault but that of its nesting. -/
theorem Token.toPolish_tokens_or (d : Derivation .expr) :
    toPolish d.tokens = .ok d.postorder ∨ toPolish d.tokens = .error .nestedTooDeeply :=
  Parsing.Progress.run_yard_of_parse? (s := .operand {} []) (Parsing.Progress.parse?_tokens d)

theorem Token.exists_derivation_of_toPolish {ts r : List Token} (h : toPolish ts = .ok r) :
    ∃ d : Derivation .expr, d.tokens = ts ∧ d.postorder = r := by
  have hform := toOption_toPolish (Yard.staysWithinLimit_of_run h)
  rw [h] at hform
  obtain ⟨d, hparse, hpostorder⟩ := Option.map_eq_some_iff.mp hform.symm
  exact ⟨d, Parsing.Progress.parse?_eq_some_iff.mp hparse, hpostorder⟩

/-- A token list has a reverse Polish form exactly if it is a sentence of the grammar at which the yard
never holds more than 256 entries. The sentence has one derivation, the form is the postorder listing of
it, and the form is built into the tree of the derivation. Of everything else there is a fault. -/
theorem Token.toPolish_eq_ok_iff (ts : List Token) :
    (∀ r, toPolish ts = .ok r ↔
      (∀ s ∈ Yard.states {} ts, s.pending.length ≤ 256) ∧
        (∃! d : Derivation .expr, d.tokens = ts) ∧
        ∃ d : Derivation .expr, d.tokens = ts ∧ r = d.postorder ∧ Expression.ofPolish r = .ok d.tree) ∧
    ((∃ fault, toPolish ts = .error fault) ↔
      ¬((∀ s ∈ Yard.states {} ts, s.pending.length ≤ 256) ∧ ∃ d : Derivation .expr, d.tokens = ts)) := by
  constructor
  · intro r
    constructor
    · intro h
      obtain ⟨d, rfl, rfl⟩ := exists_derivation_of_toPolish h
      refine ⟨Yard.staysWithinLimit_of_run h, ⟨d, rfl, fun d' hd' => ?_⟩, d, rfl, rfl, ?_⟩
      · exact Derivation.tokens_injective hd'
      · exact d.ofPolish_postorder
    · rintro ⟨hlimit, -, d, rfl, rfl, -⟩
      exact toPolish_tokens hlimit
  · constructor
    · rintro ⟨fault, hfault⟩ ⟨hlimit, d, rfl⟩
      rw [toPolish_tokens hlimit] at hfault
      cases hfault
    · intro hnone
      cases h : toPolish ts with
      | error fault => exact ⟨fault, rfl⟩
      | ok r =>
          obtain ⟨d, hd, -⟩ := exists_derivation_of_toPolish h
          exact absurd ⟨Yard.staysWithinLimit_of_run h, d, hd⟩ hnone

/-- A sign takes the whole power after it, and in an exponent the power takes the sign. -/
example : Token.toPolish [.operator .sub, .constant .pi, .operator .pow, .operator .sub, .constant .e] =
    .ok [.constant .pi, .constant .e, .sign .minus, .operator .pow, .sign .minus] := rfl

end DeskCalc
