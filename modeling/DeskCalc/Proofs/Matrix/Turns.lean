import DeskCalc.Matrix.Rank

/-!
The passes over the columns of a grid, told as the turns that they make. A turn is one rotation of two columns by
an angle; what is left of a pass when the pairs that count as orthogonal are passed over is the list of its turns,
and a run is the list of its passes. Making these turns one after the other leads to the columns that the passes
lead to, and each of them is the turn that its pair of columns asks for when its time has come.
-/

namespace DeskCalc

/-- One rotation: two columns, and the cosine and the sine of the angle. -/
structure Turn (α : Type) (m : Nat) where
  first : Fin m
  second : Fin m
  cosine : α
  sine : α

namespace Turn

variable {α : Type} [Add α] [Sub α] [Mul α] {n m : Nat}

def apply (t : Turn α m) (columns : Grid α m n) : Grid α m n :=
  (columns.setRow t.first (Vector.zipWith (fun x y => t.cosine * x - t.sine * y)
    (columns.get t.first) (columns.get t.second))).setRow t.second
      (Vector.zipWith (fun x y => t.sine * x + t.cosine * y) (columns.get t.first) (columns.get t.second))

/-- One turn after the other. -/
def replay (turns : List (Turn α m)) (columns : Grid α m n) : Grid α m n :=
  turns.foldl (fun columns t => t.apply columns) columns

section Apply

variable (t : Turn α m) (columns : Grid α m n) (j : Fin m)

/-- A turn leaves the other columns alone. -/
theorem get_apply : (t.apply columns).get j =
    if j = t.second then
      Vector.zipWith (fun x y => t.sine * x + t.cosine * y) (columns.get t.first) (columns.get t.second)
    else if j = t.first then
      Vector.zipWith (fun x y => t.cosine * x - t.sine * y) (columns.get t.first) (columns.get t.second)
    else columns.get j := by
  rw [apply, Grid.get_setRow, Grid.get_setRow]

theorem entry_apply (i : Fin n) : (t.apply columns).entry j i =
    if j = t.second then t.sine * columns.entry t.first i + t.cosine * columns.entry t.second i
    else if j = t.first then t.cosine * columns.entry t.first i - t.sine * columns.entry t.second i
    else columns.entry j i := by
  simp only [Grid.entry, get_apply]
  split
  · simp [Grid.get_eq_getElem]
  split
  · simp [Grid.get_eq_getElem]
  · rfl

end Apply

@[simp] theorem replay_nil (columns : Grid α m n) : replay [] columns = columns := rfl

@[simp] theorem replay_cons (t : Turn α m) (turns : List (Turn α m)) (columns : Grid α m n) :
    replay (t :: turns) columns = replay turns (t.apply columns) := rfl

@[simp] theorem replay_append (turns turns' : List (Turn α m)) (columns : Grid α m n) :
    replay (turns ++ turns') columns = replay turns' (replay turns columns) := List.foldl_append

end Turn

namespace Grid

open Turn (replay)

variable {α : Type} [OfNat α 0] [OfNat α 1] [OfNat α 2] [Add α] [Sub α] [Mul α] [Div α] [Neg α] [BEq α] [LT α]
  [DecidableLT α] [LE α] [DecidableLE α] [Spectral α] {n m : Nat}

/-- The turn that a pair of columns asks for, unless they count as orthogonal. -/
def turn? (columns : Grid α m n) (p q : Fin m) : Option (Turn α m) :=
  let alpha := normSquared (columns.get p)
  let beta := normSquared (columns.get q)
  let gamma := dot (columns.get p) (columns.get q)
  if areOrthogonal alpha beta gamma then none
  else some ⟨p, q, (rotation alpha beta gamma).1, (rotation alpha beta gamma).2⟩

/-- The turns of a pass over some pairs. -/
def turnsAlong : List (Fin m × Fin m) → Grid α m n → List (Turn α m)
  | [], _ => []
  | pair :: rest, columns =>
    match columns.turn? pair.1 pair.2 with
    | none => turnsAlong rest columns
    | some t => t :: turnsAlong rest (t.apply columns)

/-- The turns of at most `count` passes, pass by pass. A pass without any is the last one. -/
def turns : Nat → Grid α m n → List (List (Turn α m))
  | 0, _ => []
  | count + 1, columns =>
    let pass := columns.turnsAlong (pairs m)
    pass :: if pass.isEmpty then [] else turns count (replay pass columns)

/-! ### The turns lead to the same columns -/

theorem rotatePair_eq (columns : Grid α m n) (p q : Fin m) :
    rotatePair columns p q =
      ((columns.turn? p q).elim columns (·.apply columns), (columns.turn? p q).isSome) := by
  unfold rotatePair turn?
  simp only
  split
  · rfl
  · rfl

/-- A pass over some pairs. -/
def sweepAlong (ps : List (Fin m × Fin m)) (columns : Grid α m n) : Grid α m n × Bool :=
  ps.foldl (fun state pair =>
      ((rotatePair state.1 pair.1 pair.2).1, state.2 || (rotatePair state.1 pair.1 pair.2).2))
    (columns, false)

theorem sweepAlong_pairs (columns : Grid α m n) : sweepAlong (pairs m) columns = sweep columns := rfl

theorem foldl_rotatePair (ps : List (Fin m × Fin m)) (columns : Grid α m n) (rotated : Bool) :
    ps.foldl (fun state pair =>
        ((rotatePair state.1 pair.1 pair.2).1, state.2 || (rotatePair state.1 pair.1 pair.2).2))
      (columns, rotated) =
        (replay (columns.turnsAlong ps) columns, rotated || !(columns.turnsAlong ps).isEmpty) := by
  induction ps generalizing columns rotated with
  | nil => simp [turnsAlong]
  | cons pair rest ih =>
      rw [List.foldl_cons, rotatePair_eq, ih, turnsAlong]
      cases columns.turn? pair.1 pair.2 with
      | none => simp
      | some t => simp

theorem sweepAlong_eq_replay (ps : List (Fin m × Fin m)) (columns : Grid α m n) :
    sweepAlong ps columns = (replay (columns.turnsAlong ps) columns, !(columns.turnsAlong ps).isEmpty) := by
  rw [sweepAlong, foldl_rotatePair, Bool.false_or]

/-- A pass without a rotation changes nothing. -/
theorem sweep_of_not {columns : Grid α m n} (h : (sweep columns).2 = false) : (sweep columns).1 = columns := by
  rw [← sweepAlong_pairs, sweepAlong_eq_replay] at h ⊢
  have hnone : columns.turnsAlong (pairs m) = [] := by simpa using h
  rw [hnone, Turn.replay_nil]

/-- One pass more, at the end of the run; after the last one it changes nothing. -/
theorem sweeps_succ (count : Nat) (columns : Grid α m n) :
    sweeps (count + 1) columns = (sweep (sweeps count columns)).1 := by
  induction count generalizing columns with
  | zero => simp [sweeps]
  | succ count ih =>
      rw [sweeps]
      cases hrotated : (sweep columns).2 with
      | true =>
          simp only [if_true]
          rw [ih, sweeps, hrotated]
          rfl
      | false => simp [sweeps, hrotated, sweep_of_not hrotated]

/-- The passes lead where their turns lead. -/
theorem sweeps_eq_replay (count : Nat) (columns : Grid α m n) :
    sweeps count columns = replay (columns.turns count).flatten columns := by
  induction count generalizing columns with
  | zero => rfl
  | succ count ih =>
      rw [sweeps, ← sweepAlong_pairs, sweepAlong_eq_replay, turns]
      simp only [List.flatten_cons, Turn.replay_append]
      cases hpass : (columns.turnsAlong (pairs m)).isEmpty with
      | true => simp
      | false => simpa using ih _

/-! ### Each turn is the one that its pair asks for -/

/-- Every turn is asked for by its pair, in the order of a pass, when those before it have been made. -/
def AreChosen : Grid α m n → List (Turn α m) → Prop
  | _, [] => True
  | columns, t :: rest =>
    t.first < t.second ∧ columns.turn? t.first t.second = some t ∧ AreChosen (t.apply columns) rest

theorem areChosen_append {ts ts' : List (Turn α m)} {columns : Grid α m n} :
    AreChosen columns (ts ++ ts') ↔ AreChosen columns ts ∧ AreChosen (replay ts columns) ts' := by
  induction ts generalizing columns with
  | nil => simp [AreChosen]
  | cons t rest ih => simp [AreChosen, ih, and_assoc]

theorem eq_of_turn? {columns : Grid α m n} {p q : Fin m} {t : Turn α m} (h : columns.turn? p q = some t) :
    t.first = p ∧ t.second = q := by
  unfold turn? at h
  simp only at h
  split at h
  · cases h
  · cases h
    exact ⟨rfl, rfl⟩

theorem lt_of_mem_pairs {pair : Fin m × Fin m} (h : pair ∈ pairs m) : pair.1 < pair.2 := by
  simp only [pairs, List.mem_flatMap, List.mem_map, List.mem_filter, decide_eq_true_eq] at h
  obtain ⟨p, -, q, ⟨-, hlt⟩, rfl⟩ := h
  exact hlt

theorem areChosen_turnsAlong {ps : List (Fin m × Fin m)} (hps : ∀ pair ∈ ps, pair.1 < pair.2)
    (columns : Grid α m n) : AreChosen columns (columns.turnsAlong ps) := by
  induction ps generalizing columns with
  | nil => trivial
  | cons pair rest ih =>
      obtain ⟨hlt, hrest⟩ := List.forall_mem_cons.1 hps
      rw [turnsAlong]
      cases ht : columns.turn? pair.1 pair.2 with
      | none => exact ih hrest columns
      | some t =>
          obtain ⟨hfirst, hsecond⟩ := eq_of_turn? ht
          refine ⟨by rwa [hfirst, hsecond], by rwa [hfirst, hsecond], ih hrest _⟩

theorem areChosen_turns (count : Nat) (columns : Grid α m n) :
    AreChosen columns (columns.turns count).flatten := by
  induction count generalizing columns with
  | zero => trivial
  | succ count ih =>
      rw [turns]
      simp only [List.flatten_cons]
      refine areChosen_append.2 ⟨areChosen_turnsAlong (fun _ => lt_of_mem_pairs) columns, ?_⟩
      split
      · trivial
      · exact ih _

end Grid

end DeskCalc
