import DeskCalc.Expression.Value
import DeskCalc.Proofs.Binary64.Order
import DeskCalc.Proofs.Stages

/-!
No infinity hides in a value. The evaluation of a tree is run once more, now with a record of everything that is
applied to numbers, and with any mathematical library in the place of the platform's. Nothing is ever applied to
an operand that is not finite, and if one result in the record is not finite, as it is computed and before it is
checked, then there is no value.
-/

namespace DeskCalc

/-- What the functions and the power of a mathematical library yield. -/
structure MathLibrary where
  trig : TrigFunction → Float → Float
  sqrt : Float → Float
  log : Float → Float
  exp : Float → Float
  pow : Float → Float → Float

namespace MathLibrary

def platform : MathLibrary where
  trig := TrigFunction.eval
  sqrt := Float.sqrt
  log := Float.log
  exp := Float.exp
  pow := Float.pow

/-- The result of a function, before it is known to be finite. -/
def function (lib : MathLibrary) (f : Elementary) (x : Float) : Except EvalError Float :=
  match f with
  | .trig t => .ok (lib.trig t x)
  | .sqrt => if x < 0 then .error (.domain (.negativeRoot x)) else .ok (lib.sqrt x)
  | .log => if x ≤ 0 then .error (.domain (.nonPositiveLog x)) else .ok (lib.log x)
  | .exp => .ok (lib.exp x)

/-- The result of an operation, before it is known to be finite. A power is refused for the operands for which
the platform's is refused. -/
def operation (lib : MathLibrary) (op : BinaryOperator) (a b : Float) : Except EvalError Float :=
  match op with
  | .pow => (power a b).map fun _ => lib.pow a b
  | .add | .sub | .mul | .div => op.compute a b

end MathLibrary

/-- The result of an operation, if it is a finite number. -/
def BinaryOperator.checked (op : BinaryOperator) (a b y : Float) : Except EvalError Float :=
  if y.isFinite then .ok y else .error (.notFinite (.operation op a b))

/-- The inner nodes of a tree. -/
inductive Node
  | negative
  | binary (op : BinaryOperator)
  | call (f : Elementary)
deriving DecidableEq

/-- An inner node applied to numbers. -/
inductive Application
  | negative (x : Float)
  | binary (op : BinaryOperator) (x y : Float)
  | call (f : Elementary) (x : Float)
deriving DecidableEq

namespace Application

def node : Application → Node
  | negative _ => .negative
  | binary op _ _ => .binary op
  | call f _ => .call f

def operands : Application → List Float
  | negative x => [x]
  | binary _ x y => [x, y]
  | call _ x => [x]

/-- What is computed, before it is checked. -/
def result (lib : MathLibrary) : Application → Except EvalError Float
  | negative x => .ok (-x)
  | binary op x y => lib.operation op x y
  | call f x => lib.function f x

/-- The check of a result. The negative of a number is not checked. -/
def checked : Application → Float → Except EvalError Float
  | negative _, y => .ok y
  | binary op a b, y => op.checked a b y
  | call f x, y => f.checked x y

end Application

/-- An evaluation with the record of what was applied, the first application first. -/
structure Run where
  applications : List Application
  outcome : Except EvalError Float

namespace Run

def apply (lib : MathLibrary) (a : Application) : Run := ⟨[a], (a.result lib).bind a.checked⟩

/-- A run that goes on with the value of `r`, if it has one. -/
def andThen (r : Run) (next : Float → Run) : Run :=
  match r.outcome with
  | .error e => ⟨r.applications, .error e⟩
  | .ok x => ⟨r.applications ++ (next x).applications, (next x).outcome⟩

end Run

namespace Expression

/-- The evaluation of a tree with the functions of `lib`. -/
def run (lib : MathLibrary) : Expression → Run
  | number v => ⟨[], (number v).value⟩
  | constant c => ⟨[], (constant c).value⟩
  | negative e => (e.run lib).andThen fun x => .apply lib (.negative x)
  | binary op a b => (a.run lib).andThen fun x => (b.run lib).andThen fun y => .apply lib (.binary op x y)
  | call f e => (e.run lib).andThen fun x => .apply lib (.call f x)

/-- The inner nodes of a tree, those of the operands first. -/
def nodes : Expression → List Node
  | number _ | constant _ => []
  | negative e => e.nodes ++ [.negative]
  | binary op a b => a.nodes ++ (b.nodes ++ [.binary op])
  | call f e => e.nodes ++ [.call f]

end Expression

/-! ### The platform's library -/

theorem BinaryOperator.apply_eq_bind (op : BinaryOperator) (a b : Float) :
    op.apply a b = (op.compute a b).bind (op.checked a b) := by
  rw [apply]
  cases op.compute a b with
  | error e => rfl
  | ok y => rfl

theorem Elementary.apply_eq_bind (f : Elementary) (x : Float) :
    f.apply x = (MathLibrary.platform.function f x).bind (f.checked x) := by
  cases f with
  | trig t => rfl
  | sqrt | log =>
      simp only [apply, MathLibrary.function]
      split
      · rfl
      · rfl
  | exp => rfl

theorem map_power (a b : Float) : (power a b).map (fun _ => a.pow b) = power a b := by
  unfold power
  split
  · rfl
  split
  · rfl
  · rfl

theorem MathLibrary.operation_platform (op : BinaryOperator) (a b : Float) :
    platform.operation op a b = op.compute a b := by
  cases op with
  | add | sub | mul | div => rfl
  | pow => exact map_power a b

theorem Run.outcome_andThen (r : Run) (next : Float → Run) :
    (r.andThen next).outcome = r.outcome.bind fun x => (next x).outcome := by
  rw [andThen]
  cases r.outcome with
  | error e => rfl
  | ok x => rfl

/-- With the platform's library a run ends as the evaluation of the tree. -/
theorem Expression.outcome_run_platform (e : Expression) : (e.run .platform).outcome = e.value := by
  induction e with
  | number v => rfl
  | constant c => rfl
  | negative e ih =>
      rw [run, Run.outcome_andThen, ih, value]
      cases e.value with
      | error fault => rfl
      | ok x => rfl
  | binary op a b iha ihb =>
      have happly : ∀ x y, (Run.apply .platform (.binary op x y)).outcome = op.apply x y := by
        intro x y
        rw [Run.apply, Application.result, MathLibrary.operation_platform, op.apply_eq_bind]
        rfl
      simp only [run, Run.outcome_andThen, iha, ihb, happly]
      rfl
  | call f e ih =>
      have happly : ∀ x, (Run.apply .platform (.call f x)).outcome = f.apply x := by
        intro x
        rw [Run.apply, Application.result, f.apply_eq_bind]
        rfl
      simp only [run, Run.outcome_andThen, ih, happly]
      rfl

/-! ### Finite operands and results -/

theorem Constant.isFinite_value (c : Constant) : c.value.isFinite = true := by
  cases c <;> decide

theorem Elementary.isFinite_of_checked {f : Elementary} {x y z : Float} (h : f.checked x y = .ok z) :
    z = y ∧ y.isFinite = true := by
  unfold checked at h
  split at h
  · cases h
  split at h
  · cases h
  next hnumber hbounded =>
    cases h
    exact ⟨rfl, Binary64.isFinite_of_not_isInf (Bool.eq_false_iff.2 hnumber) (Bool.eq_false_iff.2 hbounded)⟩

theorem BinaryOperator.isFinite_of_checked {op : BinaryOperator} {a b y z : Float}
    (h : op.checked a b y = .ok z) : z = y ∧ y.isFinite = true := by
  unfold checked at h
  split at h
  next hfinite =>
    cases h
    exact ⟨rfl, hfinite⟩
  · cases h

/-- What passes the check is the result itself, and it is finite. -/
theorem Application.isFinite_of_checked {lib : MathLibrary} {a : Application} {y z : Float}
    (hoperands : ∀ x ∈ a.operands, x.isFinite = true) (hresult : a.result lib = .ok y)
    (hchecked : a.checked y = .ok z) : z = y ∧ y.isFinite = true := by
  cases a with
  | negative x =>
      have hx : x.isFinite = true := hoperands x (List.mem_singleton_self x)
      cases hresult
      cases hchecked
      exact ⟨rfl, (Binary64.isFinite_neg (Binary64.isFinite_iff.1 hx).le).trans hx⟩
  | binary op x y => exact BinaryOperator.isFinite_of_checked hchecked
  | call f x => exact Elementary.isFinite_of_checked hchecked

/-- Every operand is finite, and if there is a value, then so are it and all results that led to it. -/
structure Run.IsFinite (lib : MathLibrary) (r : Run) : Prop where
  operands : ∀ a ∈ r.applications, ∀ x ∈ a.operands, x.isFinite = true
  value : ∀ z, r.outcome = .ok z → z.isFinite = true
  results : ∀ z, r.outcome = .ok z → ∀ a ∈ r.applications, ∃ y, a.result lib = .ok y ∧ y.isFinite = true

namespace Run

variable {lib : MathLibrary}

theorem isFinite_leaf {outcome : Except EvalError Float} (h : ∀ z, outcome = .ok z → z.isFinite = true) :
    IsFinite lib ⟨[], outcome⟩ where
  operands a ha := by cases ha
  value := h
  results z _ a ha := by cases ha

theorem isFinite_apply {a : Application} (h : ∀ x ∈ a.operands, x.isFinite = true) :
    IsFinite lib (apply lib a) where
  operands a' ha' := by
    rw [List.mem_singleton.1 ha']
    exact h
  value z hz := by
    obtain ⟨y, hy, hyz⟩ := bind_eq_ok_iff.1 hz
    obtain ⟨rfl, hfinite⟩ := Application.isFinite_of_checked h hy hyz
    exact hfinite
  results z hz a' ha' := by
    rw [List.mem_singleton.1 ha']
    obtain ⟨y, hy, hyz⟩ := bind_eq_ok_iff.1 hz
    exact ⟨y, hy, (Application.isFinite_of_checked h hy hyz).2⟩

theorem IsFinite.andThen {r : Run} {next : Float → Run} (hr : r.IsFinite lib)
    (hnext : ∀ x, x.isFinite = true → (next x).IsFinite lib) : (r.andThen next).IsFinite lib := by
  rw [Run.andThen]
  cases houtcome : r.outcome with
  | error e => exact ⟨hr.operands, nofun, nofun⟩
  | ok x =>
      have hx := hnext x (hr.value x houtcome)
      refine ⟨?_, hx.value, ?_⟩
      · intro a ha
        rcases List.mem_append.1 ha with ha | ha
        · exact hr.operands a ha
        · exact hx.operands a ha
      · intro z hz a ha
        rcases List.mem_append.1 ha with ha | ha
        · exact hr.results x houtcome a ha
        · exact hx.results z hz a ha

/-- The record of a run in two parts that ends with a value. -/
theorem exists_of_andThen {r : Run} {next : Float → Run} {z : Float} (h : (r.andThen next).outcome = .ok z) :
    ∃ x, r.outcome = .ok x ∧ (next x).outcome = .ok z ∧
      (r.andThen next).applications = r.applications ++ (next x).applications := by
  rw [outcome_andThen] at h
  obtain ⟨x, hx, hz⟩ := bind_eq_ok_iff.1 h
  refine ⟨x, hx, hz, ?_⟩
  rw [andThen, hx]

end Run

namespace Expression

variable {lib : MathLibrary}

theorem isFinite_run (lib : MathLibrary) (e : Expression) : (e.run lib).IsFinite lib := by
  induction e with
  | number v =>
      apply Run.isFinite_leaf
      intro z hz
      unfold value at hz
      split at hz
      next hfinite =>
        cases hz
        exact hfinite
      · cases hz
  | constant c =>
      apply Run.isFinite_leaf
      rintro z ⟨⟩
      exact c.isFinite_value
  | negative e ih =>
      apply ih.andThen
      intro x hx
      apply Run.isFinite_apply
      simpa [Application.operands] using hx
  | binary op a b iha ihb =>
      apply iha.andThen
      intro x hx
      apply ihb.andThen
      intro y hy
      apply Run.isFinite_apply
      simpa [Application.operands] using And.intro hx hy
  | call f e ih =>
      apply ih.andThen
      intro x hx
      apply Run.isFinite_apply
      simpa [Application.operands] using hx

/-- A run that ends with a value has applied every inner node of the tree, and each of them once. -/
theorem map_node_run {e : Expression} {z : Float} (h : (e.run lib).outcome = .ok z) :
    (e.run lib).applications.map Application.node = e.nodes := by
  induction e generalizing z with
  | number v => rfl
  | constant c => rfl
  | negative e ih =>
      obtain ⟨x, hx, -, hrecord⟩ := Run.exists_of_andThen h
      rw [run, hrecord, List.map_append, ih hx]
      rfl
  | binary op a b iha ihb =>
      obtain ⟨x, hx, h, hrecord⟩ := Run.exists_of_andThen h
      obtain ⟨y, hy, -, hrecord'⟩ := Run.exists_of_andThen h
      rw [run, hrecord, hrecord', List.map_append, List.map_append, iha hx, ihb hy]
      rfl
  | call f e ih =>
      obtain ⟨x, hx, -, hrecord⟩ := Run.exists_of_andThen h
      rw [run, hrecord, List.map_append, ih hx]
      rfl

/-- Whatever the library yields, nothing is applied to what is not finite, and a tree has a value only if it and
every result on the way to it are finite. -/
theorem finite_of_run (lib : MathLibrary) (e : Expression) :
    (e.run .platform).outcome = e.value ∧
    (∀ a ∈ (e.run lib).applications, ∀ x ∈ a.operands, x.isFinite = true) ∧
    ∀ z, (e.run lib).outcome = .ok z → z.isFinite = true ∧
      (e.run lib).applications.map Application.node = e.nodes ∧
      ∀ a ∈ (e.run lib).applications, ∃ y, a.result lib = .ok y ∧ y.isFinite = true := by
  have hrun := e.isFinite_run lib
  refine ⟨e.outcome_run_platform, hrun.operands, ?_⟩
  intro z hz
  exact ⟨hrun.value z hz, map_node_run hz, hrun.results z hz⟩

/-- The root of `4`, one more, and the inverse of the sum. -/
theorem finite_of_run_of_root :
    ∃ z, (binary .div (number 1) (binary .add (call .sqrt (number 4)) (number 1))).value = .ok z ∧
      z.isFinite = true ∧
      ((binary .div (number 1) (binary .add (call .sqrt (number 4)) (number 1))).run .platform).applications.map
        Application.node = [.call .sqrt, .binary .add, .binary .div] := by
  have hvalue : (binary .div (number 1) (binary .add (call .sqrt (number 4)) (number 1))).value.toOption.isSome =
      true := by
    decide +kernel
  obtain ⟨z, hz⟩ := Option.isSome_iff_exists.1 hvalue
  rw [toOption_eq_some_iff] at hz
  obtain ⟨hrun, -, hfinite⟩ := finite_of_run .platform
    (binary .div (number 1) (binary .add (call .sqrt (number 4)) (number 1)))
  obtain ⟨hz', hnodes, -⟩ := hfinite z (hrun.trans hz)
  exact ⟨z, hz, hz', hnodes⟩

/-- The product `1e300 * 1e300` is infinite and its inverse would be `0`, but there is no value. -/
example : (binary .div (number 1) (binary .mul (number 1e300) (number 1e300))).value =
    .error (.notFinite (.operation .mul 1e300 1e300)) := by
  decide +kernel

end Expression

end DeskCalc
