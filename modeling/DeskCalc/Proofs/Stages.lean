/-!
Computations in stages. The whole succeeds exactly if every stage does, and its error is that of the first
stage that fails.
-/

namespace DeskCalc

variable {ε ε' α β : Type} {result : Except ε α}

theorem bind_eq_ok_iff {f : α → Except ε β} {y : β} :
    result.bind f = .ok y ↔ ∃ x, result = .ok x ∧ f x = .ok y := by
  cases result with
  | error e => simp [Except.bind]
  | ok x => simp [Except.bind]

theorem bind_eq_error_iff {f : α → Except ε β} {e : ε} :
    result.bind f = .error e ↔ result = .error e ∨ ∃ x, result = .ok x ∧ f x = .error e := by
  cases result with
  | error e' => simp [Except.bind]
  | ok x => simp [Except.bind]

theorem map_eq_ok_iff {f : α → β} {y : β} : result.map f = .ok y ↔ ∃ x, result = .ok x ∧ f x = y := by
  cases result with
  | error e => simp [Except.map]
  | ok x => simp [Except.map]

theorem map_eq_error_iff {f : α → β} {e : ε} : result.map f = .error e ↔ result = .error e := by
  cases result with
  | error e' => simp [Except.map]
  | ok x => simp [Except.map]

theorem toOption_eq_some_iff {x : α} : result.toOption = some x ↔ result = .ok x := by
  cases result with
  | error e => simp [Except.toOption]
  | ok x => simp [Except.toOption]

theorem mapError_eq_ok_iff {f : ε → ε'} {x : α} : result.mapError f = .ok x ↔ result = .ok x := by
  cases result with
  | error e => exact iff_of_false nofun nofun
  | ok x' =>
      constructor
      · intro h
        exact congrArg Except.ok (Except.ok.inj h)
      · rintro ⟨⟩
        rfl

end DeskCalc
