import DeskCalc.Expression.Value
import DeskCalc.Proofs.Expression.Listing

/-!
How deep an expression is. Its value and its text are computed by calls that wait for the calls on the operands, and
a machine has room for so many waiting calls and no more. What they need is the depth of the tree, which is at most
the number of its nodes.
-/

namespace DeskCalc.Expression

/-- The number of nodes. -/
def size : Expression → Nat
  | number _ | constant _ => 1
  | negative e | call _ e => e.size + 1
  | binary _ a b => a.size + b.size + 1

/-- The number of nodes on the longest way down the tree. -/
def depth : Expression → Nat
  | number _ | constant _ => 1
  | negative e | call _ e => e.depth + 1
  | binary _ a b => max a.depth b.depth + 1

theorem depth_le_size (e : Expression) : e.depth ≤ e.size := by
  induction e with
  | number | constant => exact Nat.le_refl 1
  | negative e ih | call f e ih => exact Nat.succ_le_succ ih
  | binary op a b iha ihb =>
      simp only [depth, size]
      omega

theorem length_postorder (e : Expression) : e.postorder.length = e.size := by
  induction e with
  | number | constant => rfl
  | negative e ih | call f e ih => rw [postorder, List.length_append, ih, List.length_singleton, size]
  | binary op a b iha ihb =>
      rw [postorder, List.length_append, List.length_append, iha, ihb, List.length_singleton, size]

/-- The value, if there is room for that many calls that wait for each other. The right operand is computed only if
the left one has a value. -/
def valueWithin : (room : Nat) → Expression → Option (Except EvalError Float)
  | 0, _ => none
  | _ + 1, number v => some (if v.isFinite then .ok v else .error (.notFinite .literal))
  | _ + 1, constant c => some (.ok c.value)
  | room + 1, negative e => (valueWithin room e).map (·.map (- ·))
  | room + 1, binary op a b =>
    match valueWithin room a with
    | none => none
    | some (.error e) => some (.error e)
    | some (.ok x) => (valueWithin room b).map (·.bind (op.apply x))
  | room + 1, call f e => (valueWithin room e).map (·.bind f.apply)

/-- The text, if there is room for that many calls that wait for each other. -/
def textWithin : (room : Nat) → Expression → Option String
  | 0, _ => none
  | _ + 1, number v => some (plainText v)
  | _ + 1, constant c => some c.name
  | room + 1, negative e => (textWithin room e).map ("-" ++ ·)
  | room + 1, binary op a b =>
    (textWithin room a).bind fun left =>
      (textWithin room b).map fun right => "(" ++ left ++ " " ++ op.symbol ++ " " ++ right ++ ")"
  | room + 1, call f e => (textWithin room e).map (f.name ++ "(" ++ · ++ ")")

/-- Room for the depth of the tree is enough for its value. -/
theorem valueWithin_of_depth_le {room : Nat} {e : Expression} (h : e.depth ≤ room) :
    e.valueWithin room = some e.value := by
  induction e generalizing room with
  | number | constant =>
      cases room with
      | zero => exact absurd h (Nat.not_succ_le_zero _)
      | succ room => rfl
  | negative e ih | call f e ih =>
      cases room with
      | zero => exact absurd h (Nat.not_succ_le_zero _)
      | succ room =>
          rw [valueWithin, ih (Nat.le_of_succ_le_succ h)]
          rfl
  | binary op a b iha ihb =>
      cases room with
      | zero => exact absurd h (Nat.not_succ_le_zero _)
      | succ room =>
          obtain ⟨ha, hb⟩ := Nat.max_le.1 (Nat.le_of_succ_le_succ h)
          rw [valueWithin, iha ha, ihb hb, value]
          cases a.value with
          | error e => rfl
          | ok x => rfl

/-- For the text the depth is exactly the room that is needed. -/
theorem textWithin_eq (room : Nat) (e : Expression) :
    e.textWithin room = if e.depth ≤ room then some e.text else none := by
  induction e generalizing room with
  | number | constant => cases room <;> rfl
  | negative e ih | call f e ih =>
      cases room with
      | zero => rfl
      | succ room =>
          rw [textWithin, ih, depth]
          by_cases h : e.depth ≤ room
          · rw [if_pos h, if_pos (Nat.succ_le_succ h)]
            rfl
          · rw [if_neg h, if_neg (mt Nat.le_of_succ_le_succ h)]
            rfl
  | binary op a b iha ihb =>
      cases room with
      | zero => rfl
      | succ room =>
          rw [textWithin, iha, ihb, depth]
          by_cases ha : a.depth ≤ room
          · by_cases hb : b.depth ≤ room
            · rw [if_pos ha, if_pos hb, if_pos (Nat.succ_le_succ (Nat.max_le.2 ⟨ha, hb⟩))]
              rfl
            · rw [if_pos ha, if_neg hb, if_neg fun h => hb (Nat.max_le.1 (Nat.le_of_succ_le_succ h)).2]
              rfl
          · rw [if_neg ha, if_neg fun h => ha (Nat.max_le.1 (Nat.le_of_succ_le_succ h)).1]
            rfl

end DeskCalc.Expression
