import DeskCalc.Expression.Polish
import DeskCalc.Expression.Tree

/-!
The grammar of expressions. A sum is made of terms, a term of factors that may carry signs, and a factor is
an atom with an optional exponent, which may carry signs again. Sums and products group to the left and
powers to the right, because the left operand of a power is an atom. A derivation is a tree of the grammar:
it has the tokens of the sentence that it derives, a postorder listing, and an expression that it stands
for.
-/

namespace DeskCalc

/-- The nonterminals, from the loosest to the tightest. -/
inductive Phrase
  | expr
  | term
  | unary
  | power
  | atom

def BinaryOperator.isAdditive : BinaryOperator → Bool
  | .add | .sub => true
  | .mul | .div | .pow => false

def BinaryOperator.isMultiplicative : BinaryOperator → Bool
  | .mul | .div => true
  | .add | .sub | .pow => false

theorem BinaryOperator.not_isAdditive {op : BinaryOperator} (h : op.isMultiplicative = true) :
    ¬op.isAdditive = true := by
  cases op <;> simp_all [isAdditive, isMultiplicative]

theorem BinaryOperator.eq_pow {op : BinaryOperator} (hadd : ¬op.isAdditive = true)
    (hmul : ¬op.isMultiplicative = true) : op = .pow := by
  cases op <;> simp_all [isAdditive, isMultiplicative]

/-- The operator that a sign is typed as. -/
def Sign.operator : Sign → BinaryOperator
  | .plus => .add
  | .minus => .sub

theorem BinaryOperator.sign?_eq_some_iff {op : BinaryOperator} {s : Sign} :
    op.sign? = some s ↔ op = s.operator := by
  cases op <;> cases s <;> decide

inductive Derivation : Phrase → Type
  | number (v : Float) : Derivation .atom
  | constant (c : Constant) : Derivation .atom
  | call (f : Elementary) (argument : Derivation .expr) : Derivation .atom
  | group (inner : Derivation .expr) : Derivation .atom
  | base (a : Derivation .atom) : Derivation .power
  | raise (a : Derivation .atom) (exponent : Derivation .unary) : Derivation .power
  | plain (p : Derivation .power) : Derivation .unary
  | signed (s : Sign) (operand : Derivation .unary) : Derivation .unary
  | factor (u : Derivation .unary) : Derivation .term
  | multiply (left : Derivation .term) (op : BinaryOperator) (h : op.isMultiplicative = true)
      (right : Derivation .unary) : Derivation .term
  | single (t : Derivation .term) : Derivation .expr
  | add (left : Derivation .expr) (op : BinaryOperator) (h : op.isAdditive = true)
      (right : Derivation .term) : Derivation .expr

namespace Derivation

variable {p : Phrase}

def tokens {p : Phrase} : Derivation p → List Token
  | number v => [.number v]
  | constant c => [.constant c]
  | call f e => .call f :: .opening :: (e.tokens ++ [.closing])
  | group e => .opening :: (e.tokens ++ [.closing])
  | base a => a.tokens
  | raise a e => a.tokens ++ .operator .pow :: e.tokens
  | plain q => q.tokens
  | signed s u => .operator s.operator :: u.tokens
  | factor u => u.tokens
  | multiply l op _ r => l.tokens ++ .operator op :: r.tokens
  | single t => t.tokens
  | add l op _ r => l.tokens ++ .operator op :: r.tokens

/-- The postorder listing: every operator, sign and function after its operands, and no parentheses. -/
def postorder {p : Phrase} : Derivation p → List Token
  | number v => [.number v]
  | constant c => [.constant c]
  | call f e => e.postorder ++ [.call f]
  | group e => e.postorder
  | base a => a.postorder
  | raise a e => a.postorder ++ e.postorder ++ [.operator .pow]
  | plain q => q.postorder
  | signed s u => u.postorder ++ [.sign s]
  | factor u => u.postorder
  | multiply l op _ r => l.postorder ++ r.postorder ++ [.operator op]
  | single t => t.postorder
  | add l op _ r => l.postorder ++ r.postorder ++ [.operator op]

/-- The expression that is meant: a plus sign and a pair of parentheses leave no trace in it. -/
def tree {p : Phrase} : Derivation p → Expression
  | number v => .number v
  | constant c => .constant c
  | call f e => .call f e.tree
  | group e => e.tree
  | base a => a.tree
  | raise a e => .binary .pow a.tree e.tree
  | plain q => q.tree
  | signed .plus u => u.tree
  | signed .minus u => .negative u.tree
  | factor u => u.tree
  | multiply l op _ r => .binary op l.tree r.tree
  | single t => t.tree
  | add l op _ r => .binary op l.tree r.tree

theorem foldlM_push_operator {us vs : List Token} {a b : Expression} (op : BinaryOperator)
    (ha : ∀ stack, us.foldlM Expression.push stack = .ok (a :: stack))
    (hb : ∀ stack, vs.foldlM Expression.push stack = .ok (b :: stack)) (stack : List Expression) :
    (us ++ vs ++ [Token.operator op]).foldlM Expression.push stack = .ok (.binary op a b :: stack) := by
  rw [List.foldlM_append, List.foldlM_append, ha]
  simp only [bind, Except.bind, hb]
  rfl

/-- Reading a postorder listing leaves the tree on top of what was on the stack. -/
theorem foldlM_push_postorder (d : Derivation p) (stack : List Expression) :
    d.postorder.foldlM Expression.push stack = .ok (d.tree :: stack) := by
  induction d generalizing stack with
  | number v => rfl
  | constant c => rfl
  | call f e ih =>
      rw [postorder, List.foldlM_append, ih]
      rfl
  | group e ih => exact ih stack
  | base a ih => exact ih stack
  | raise a e iha ihe => exact foldlM_push_operator .pow iha ihe stack
  | plain q ih => exact ih stack
  | signed s u ih =>
      rw [postorder, List.foldlM_append, ih]
      cases s <;> rfl
  | factor u ih => exact ih stack
  | multiply l op h r ihl ihr => exact foldlM_push_operator op ihl ihr stack
  | single t ih => exact ih stack
  | add l op h r ihl ihr => exact foldlM_push_operator op ihl ihr stack

/-- The postorder listing of a derivation is built into its tree. -/
theorem ofPolish_postorder (d : Derivation p) : Expression.ofPolish d.postorder = .ok d.tree := by
  rw [Expression.ofPolish, foldlM_push_postorder]

end Derivation

end DeskCalc
