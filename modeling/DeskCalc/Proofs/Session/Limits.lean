import DeskCalc.Proofs.Expression.Outcome
import DeskCalc.Proofs.Session.Outputs

/-!
Two buttons for the same expression: one shows the value, the other the value with its workings. The first
reads the expression under the default limit, the second under the limit of the settings, and nothing else in
the settings is looked at. So the two agree unless exactly one of the limits refuses the expression for its
length, or both do and each quotes its own. As long as nobody changes the settings the limits are the same.
-/

namespace DeskCalc

/-! ### Refusals for the length -/

namespace EvalError

/-- How a message begins, whatever is quoted later in it. -/
def beginning : EvalError → String
  | invalidNumber _ => "Nombre invalide « "
  | domain _ => "Erreur de domaine : "
  | doubleUnderscore => "Jeton interdit « __ »"
  | malformed _ => "Syntaxe invalide ou interdite : "
  | divisionByZero => "Division par zéro"
  | notFinite _ => "Résultat non fini ("
  | tooLong _ _ => "Expression trop longue : "

theorem exists_message_eq (e : EvalError) : ∃ rest, e.message = e.beginning ++ rest := by
  cases e with
  | doubleUnderscore | divisionByZero => exact ⟨"", String.append_empty.symm⟩
  | domain fault => exact ⟨fault.message, rfl⟩
  | malformed fault => exact ⟨fault.message, rfl⟩
  | invalidNumber text =>
      refine ⟨text ++ " »", ?_⟩
      show "Nombre invalide « " ++ text ++ " »" = "Nombre invalide « " ++ (text ++ " »")
      exact String.append_assoc
  | notFinite fault =>
      refine ⟨fault.message ++ ")", ?_⟩
      show "Résultat non fini (" ++ fault.message ++ ")" = "Résultat non fini (" ++ (fault.message ++ ")")
      exact String.append_assoc
  | tooLong length limit =>
      refine ⟨toString length ++ " caractères (max " ++ toString limit ++ ")", ?_⟩
      show "Expression trop longue : " ++ toString length ++ " caractères (max " ++ toString limit ++ ")" =
        "Expression trop longue : " ++ (toString length ++ " caractères (max " ++ toString limit ++ ")")
      simp only [String.append_assoc]

theorem eq_tooLong_of_message {e : EvalError} {length limit : Nat}
    (h : e.message = (tooLong length limit).message) : ∃ length' limit', e = tooLong length' limit' := by
  obtain ⟨rest, hrest⟩ := e.exists_message_eq
  obtain ⟨rest', hrest'⟩ := (tooLong length limit).exists_message_eq
  rw [hrest, hrest'] at h
  -- the first two letters tell the kinds of errors apart
  have hstart := congrArg (fun message => message.toList.take 2) h
  cases e with
  | tooLong length' limit' => exact ⟨length', limit', rfl⟩
  | invalidNumber | domain | doubleUnderscore | malformed | divisionByZero | notFinite =>
      simp [beginning] at hstart

end EvalError

namespace Output

theorem failure_injective : Function.Injective failure := by
  intro message message' h
  exact (String.append_right_inj _).1 (Output.failed.inj h)

/-- Whether an output says that the expression is too long. -/
def IsTooLong (o : Output) : Prop :=
  ∃ length limit, o = failure (EvalError.tooLong length limit).message

theorem isTooLong_numberToShow_iff {title : String} {result : Except EvalError Float} :
    (numberToShow title result).IsTooLong ↔ ∃ length limit, result = .error (.tooLong length limit) := by
  constructor
  · rintro ⟨length, limit, h⟩
    cases result with
    | ok x => cases h
    | error e =>
        obtain ⟨length', limit', rfl⟩ := EvalError.eq_tooLong_of_message (failure_injective h)
        exact ⟨length', limit', rfl⟩
  · rintro ⟨length, limit, rfl⟩
    exact ⟨length, limit, rfl⟩

end Output

namespace Evaluation

variable {limit limit' : Nat} {text : String}

/-- The limit decides nothing for a text that is within it, nor for one that is refused before. -/
theorem ofText_congr (h : ['_', '_'] <:+: text.toList ∨ text.toList.length ≤ limit ∧ text.toList.length ≤ limit') :
    ofText limit text = ofText limit' text := by
  rw [← hasDoubleUnderscore_iff] at h
  rcases h with hunderscore | ⟨hlength, hlength'⟩
  · rw [ofText, ofText, if_pos hunderscore, if_pos hunderscore]
  · rw [ofText, ofText, if_neg (Nat.not_lt.2 hlength), if_neg (Nat.not_lt.2 hlength')]

theorem ofText_of_lt (hunderscore : ¬['_', '_'] <:+: text.toList) (hlength : limit < text.toList.length) :
    ofText limit text = .error (.tooLong text.toList.length limit) := by
  rw [ofText, if_neg (mt hasDoubleUnderscore_iff.1 hunderscore), if_pos hlength]

theorem lt_of_tooLong {length bound : Nat} (h : ofText limit text = .error (.tooLong length bound)) :
    limit < text.toList.length := by
  obtain ⟨-, hcase⟩ | ⟨-, hlength, -⟩ | ⟨-, -, -, fault, hcase⟩ | ⟨-, -, -, ⟨result, hcase⟩ | ⟨e, hcase, he⟩⟩ :=
    ofText_cases limit text
  · cases hcase.symm.trans h
  · exact hlength
  · cases hcase.symm.trans h
  · cases hcase.symm.trans h
  · cases hcase.symm.trans h
    obtain hdivision | ⟨fault, hdomain⟩ | ⟨fault, hrange⟩ := he
    · cases hdivision
    · cases hdomain
    · cases hrange

end Evaluation

/-! ### The two buttons -/

namespace TrigPanel

variable {p : TrigPanel} {limit limit' : Nat}

/-- The output of the expression tab after a button for its expression, read under a limit. The buttons are
on that tab. -/
def pressed (limit : Nat) (p : TrigPanel) : Output :=
  if p.tab = .expression then p.result limit .expression else p.expressionOutput

theorem pressed_congr (h : ['_', '_'] <:+: p.expression.toList ∨
    p.expression.toList.length ≤ limit ∧ p.expression.toList.length ≤ limit') :
    p.pressed limit = p.pressed limit' := by
  rw [pressed, pressed, result, result, Evaluation.ofText_congr h]

theorem pressed_of_lt (htab : p.tab = .expression) (hunderscore : ¬['_', '_'] <:+: p.expression.toList)
    (hlength : limit < p.expression.toList.length) :
    p.pressed limit = .failure (EvalError.tooLong p.expression.toList.length limit).message := by
  rw [pressed, if_pos htab, result, Evaluation.ofText_of_lt hunderscore hlength]
  rfl

theorem isTooLong_pressed_iff (htab : p.tab = .expression) (hunderscore : ¬['_', '_'] <:+: p.expression.toList) :
    (p.pressed limit).IsTooLong ↔ limit < p.expression.toList.length := by
  rw [pressed, if_pos htab, result, Output.isTooLong_numberToShow_iff]
  simp only [map_eq_error_iff]
  constructor
  · rintro ⟨length, bound, h⟩
    exact Evaluation.lt_of_tooLong h
  · intro h
    exact ⟨_, _, Evaluation.ofText_of_lt hunderscore h⟩

end TrigPanel

/-- What does not open the settings. -/
def Action.keepsSettings : Action → Bool
  | .changeSettings _ => false
  | .matrices _ | .trigonometry _ | .clearAll | .clearVisible => true

namespace Session

/-- The output of the expression tab after the button for the value. -/
def evaluated (s : Session) : Output := (s.step (.trigonometry .evaluate)).session.trigonometry.expressionOutput

/-- The output of the expression tab after the button for the value with its workings. -/
def explained (s : Session) : Output := (s.step (.trigonometry .explain)).session.trigonometry.expressionOutput

/-- The characters of the typed expression. -/
def formula (s : Session) : List Char := s.trigonometry.expression.toList

theorem expressionOutput_step (s : Session) {action : TrigAction}
    (haction : TrigTab.expression.answers action = true) :
    (s.step (.trigonometry action)).session.trigonometry.expressionOutput =
      s.trigonometry.pressed (Action.limit s.settings (.trigonometry action)) := by
  have hclears : Event.clears ⟨s, .trigonometry action⟩ (.trigonometry .expression) = false := rfl
  have hcomputes : Event.computes ⟨s, .trigonometry action⟩ (.trigonometry .expression) =
      (s.trigonometry.tab == .expression) :=
    congrArg (· && (s.trigonometry.tab == .expression)) haction
  have hstep := (Tab.carries_output (.trigonometry .expression)).step ⟨s, .trigonometry action⟩
  rw [hclears, hcomputes] at hstep
  rw [TrigPanel.pressed]
  by_cases htab : s.trigonometry.tab = .expression
  · rw [if_pos htab]
    rwa [if_neg Bool.false_ne_true, if_pos (beq_iff_eq.2 htab)] at hstep
  · rw [if_neg htab]
    rwa [if_neg Bool.false_ne_true, if_neg (mt beq_iff_eq.1 htab)] at hstep

theorem evaluated_eq (s : Session) : s.evaluated = s.trigonometry.pressed TrigPanel.defaultLimit :=
  s.expressionOutput_step rfl

theorem explained_eq (s : Session) : s.explained = s.trigonometry.pressed s.settings.expressionLimit :=
  s.expressionOutput_step rfl

theorem settings_step {s : Session} {action : Action} (haction : action.keepsSettings = true)
    (hs : s.settings = Settings.clamped {}) : (s.step action).session.settings = Settings.clamped {} := by
  by_cases hshown : s.shows action = true
  · rw [step_of_shows hshown]
    cases action with
    | matrices | trigonometry | clearVisible => exact hs
    | clearAll => rfl
    | changeSettings => cases haction
  · rw [step_of_not_shows (Bool.not_eq_true _ ▸ hshown)]
    exact hs

/-- The settings are those of the beginning until they are opened. -/
theorem settings_run {actions : List Action} (hactions : ∀ action ∈ actions, action.keepsSettings = true) :
    (run {} actions).settings = Settings.clamped {} := by
  induction actions using List.reverseRecOn with
  | nil => rfl
  | append_singleton actions action ih =>
      rw [run_concat]
      refine settings_step (hactions action (by simp)) (ih fun a ha => hactions a ?_)
      exact List.mem_append_left [action] ha

/-- What the two buttons show in the same session. They agree if the limits are the same, which they are until
the settings are changed. Else they agree on every text within both limits and on every text with two
underscores in a row, and a text above a limit is refused under it, with the limit quoted. Nothing else in the
settings matters. -/
theorem outputs_of_limits (s : Session) :
    (s.settings.expressionLimit = TrigPanel.defaultLimit → s.evaluated = s.explained) ∧
    (∀ actions : List Action, (∀ action ∈ actions, action.keepsSettings = true) →
      (run {} actions).settings.expressionLimit = TrigPanel.defaultLimit) ∧
    (['_', '_'] <:+: s.formula ∨
        s.formula.length ≤ TrigPanel.defaultLimit ∧ s.formula.length ≤ s.settings.expressionLimit →
      s.evaluated = s.explained) ∧
    (s.trigonometry.tab = .expression → ¬['_', '_'] <:+: s.formula →
      (TrigPanel.defaultLimit < s.formula.length → s.settings.expressionLimit < s.formula.length →
        s.evaluated = .failure (EvalError.tooLong s.formula.length TrigPanel.defaultLimit).message ∧
        s.explained = .failure (EvalError.tooLong s.formula.length s.settings.expressionLimit).message) ∧
      (Xor (TrigPanel.defaultLimit < s.formula.length) (s.settings.expressionLimit < s.formula.length) →
        Xor s.evaluated.IsTooLong s.explained.IsTooLong)) ∧
    ∀ settings : Settings,
      evaluated { s with settings } = s.evaluated ∧
      (settings.expressionLimit = s.settings.expressionLimit → explained { s with settings } = s.explained) := by
  rw [evaluated_eq, explained_eq]
  refine ⟨fun hlimit => by rw [hlimit], fun actions hactions => ?_, fun h => TrigPanel.pressed_congr h,
    fun htab hunderscore => ⟨fun hdefault hlimit => ?_, fun habove => ?_⟩, fun settings => ⟨?_, fun hlimit => ?_⟩⟩
  · rw [settings_run hactions]
    rfl
  · exact ⟨TrigPanel.pressed_of_lt htab hunderscore hdefault, TrigPanel.pressed_of_lt htab hunderscore hlimit⟩
  · rwa [TrigPanel.isTooLong_pressed_iff htab hunderscore, TrigPanel.isTooLong_pressed_iff htab hunderscore]
  · rw [evaluated_eq]
  · rw [explained_eq, hlimit]

/-- The two buttons under a limit of five characters, and a text that is above this limit only. -/
theorem outputs_of_limits_of_five :
    ∃ s : Session, s.formula = "1+1+1+1".toList ∧ s.settings.expressionLimit = 5 ∧
      Xor s.evaluated.IsTooLong s.explained.IsTooLong ∧
      evaluated { s with settings := {} } = explained { s with settings := {} } := by
  let s : Session :=
    { trigonometry := { tab := .expression, expression := "1+1+1+1" }, settings := { expressionLimit := 5 } }
  obtain ⟨-, -, -, hrefused, -⟩ := outputs_of_limits s
  obtain ⟨hequal, -⟩ := outputs_of_limits { s with settings := {} }
  have hunderscore : ¬['_', '_'] <:+: s.formula := by decide
  have habove : Xor (TrigPanel.defaultLimit < s.formula.length) (s.settings.expressionLimit < s.formula.length) :=
    .inr ⟨by decide, by decide⟩
  exact ⟨s, rfl, rfl, (hrefused rfl hunderscore).2 habove, hequal rfl⟩

end Session

end DeskCalc
