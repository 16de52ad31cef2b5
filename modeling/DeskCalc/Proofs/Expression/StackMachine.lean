import DeskCalc.Expression.Value
import DeskCalc.Proofs.Expression.Listing

/-!
A reverse Polish form as a program. Read from left to right it computes on a stack of numbers, and it stops at
the first error. On the listing of a tree it leaves the value of the tree on top of what was on the stack, or stops
with the error of the tree: the operands are computed in the order in which they are listed, each before what is
applied to it.
-/

namespace DeskCalc

namespace StackMachine

/-- The stack after one token. A number is checked when it is pushed, and the result of an operator or a function
when it is computed; a plus sign does nothing. -/
def step (stack : List Float) : Token → Except EvalError (List Float)
  | .number v => if v.isFinite then .ok (v :: stack) else .error (.notFinite .literal)
  | .constant c => .ok (c.value :: stack)
  | .operator op =>
    match stack with
    | y :: x :: rest => (op.apply x y).map (· :: rest)
    | _ => .error (.malformed .unbalanced)
  | .sign .minus =>
    match stack with
    | x :: rest => .ok (-x :: rest)
    | [] => .error (.malformed .minusWithoutOperand)
  | .sign .plus => .ok stack
  | .call f =>
    match stack with
    | x :: rest => (f.apply x).map (· :: rest)
    | [] => .error (.malformed .functionWithoutArgument)
  | .opening => .error (.malformed .parenthesisInPolish)
  | .closing => .error (.malformed .parenthesisInPolish)

/-- The number that a form leaves alone on the stack. -/
def run (tokens : List Token) : Except EvalError Float :=
  match tokens.foldlM step [] with
  | .error e => .error e
  | .ok [x] => .ok x
  | .ok _ => .error (.malformed .unbalanced)

theorem foldlM_step_filter (tokens : List Token) (stack : List Float) :
    (tokens.filter (· ≠ .sign .plus)).foldlM step stack = tokens.foldlM step stack := by
  induction tokens generalizing stack with
  | nil => rfl
  | cons t tokens ih =>
      by_cases ht : t = .sign .plus
      · rw [List.filter_cons_of_neg (by simpa using ht), ih, List.foldlM_cons, ht]
        rfl
      · rw [List.filter_cons_of_pos (by simpa using ht), List.foldlM_cons, List.foldlM_cons]
        cases step stack t with
        | error e => rfl
        | ok next => exact ih next

/-- The listing of a tree computes the value of the tree, or stops with its error. The tokens that follow find the
value on top of the stack. -/
theorem foldlM_step_append (e : Expression) (rest : List Token) (stack : List Float) :
    (e.postorder ++ rest).foldlM step stack = e.value.bind fun x => rest.foldlM step (x :: stack) := by
  induction e generalizing rest stack with
  | number v =>
      rw [Expression.postorder, List.singleton_append, List.foldlM_cons, step, Expression.value]
      split
      · rfl
      · rfl
  | constant c => rfl
  | negative e ih =>
      rw [Expression.postorder, List.append_assoc, ih, Expression.value]
      cases e.value with
      | error fault => rfl
      | ok x => rfl
  | binary op a b iha ihb =>
      -- the right operand is computed on top of the value of the left one
      simp only [Expression.postorder, List.append_assoc, iha, ihb]
      rw [Expression.value]
      cases a.value with
      | error fault => rfl
      | ok x =>
          cases b.value with
          | error fault => rfl
          | ok y =>
              change ((op.apply x y).map (· :: stack)).bind _ = (op.apply x y).bind _
              cases op.apply x y with
              | error fault => rfl
              | ok z => rfl
  | call f e ih =>
      rw [Expression.postorder, List.append_assoc, ih, Expression.value]
      cases e.value with
      | error fault => rfl
      | ok x =>
          change ((f.apply x).map (· :: stack)).bind _ = (f.apply x).bind _
          cases f.apply x with
          | error fault => rfl
          | ok y => rfl

theorem run_postorder (e : Expression) : run e.postorder = e.value := by
  rw [run, ← List.append_nil e.postorder, foldlM_step_append]
  cases e.value with
  | error fault => rfl
  | ok x => rfl

/-- Run as a program, a form ends as its tree is evaluated: with the same value or with the same error. -/
theorem run_eq_value (tokens : List Token) (e : Expression) (h : Expression.ofPolish tokens = .ok e) :
    run tokens = e.value := by
  have hrun : run tokens = run (tokens.filter (· ≠ .sign .plus)) := by
    rw [run, run, foldlM_step_filter]
  rw [hrun, Expression.filter_eq_postorder_of_ofPolish h, run_postorder]

/-- Of two operands without a value it is the left one that is reported, a number out of range and not the division
by zero after it. -/
theorem run_eq_value_of_two_faults :
    ∃ e, Expression.ofPolish [.number 1e999, .sign .plus, .number 1, .number 0, .operator .div, .operator .add] =
        .ok e ∧
      run [.number 1e999, .sign .plus, .number 1, .number 0, .operator .div, .operator .add] = e.value ∧
      e.value = .error (.notFinite .literal) := by
  have hinfinite : (1e999 : Float).isFinite = false := by decide +kernel
  refine ⟨.binary .add (.number 1e999) (.binary .div (.number 1) (.number 0)), rfl, ?_, ?_⟩
  · exact run_eq_value _ _ rfl
  · rw [Expression.value, Expression.value, hinfinite]
    rfl

end StackMachine

end DeskCalc
