import DeskCalc.Proofs.Session.Desk
import Mathlib.Data.List.Induction

/-!
What the tabs of a session show. Each of the four tabs has one output, which is computed when one of the tab's
buttons is pressed and cleared with the visible outputs or with everything. The main statement is about whole
runs: an output is what was computed at the last such event, from the texts and the choices of that time, or
nothing if it has been cleared since. What is to be shown of a result or of a failure is written out here with its
titles, and shown to be what the buttons put there.
-/

namespace DeskCalc

/-- The tabs of both halves. -/
inductive Tab
  | matrices (tab : MatrixTab)
  | trigonometry (tab : TrigTab)
deriving DecidableEq, Repr

def MatrixPanel.output (p : MatrixPanel) : MatrixTab → Output
  | .operations => p.operationOutput
  | .inverse => p.inverseOutput

def TrigPanel.output (p : TrigPanel) : TrigTab → Output
  | .function => p.functionOutput
  | .expression => p.expressionOutput

def Session.output (s : Session) : Tab → Output
  | .matrices tab => s.matrices.output tab
  | .trigonometry tab => s.trigonometry.output tab

def Desk.slot (d : Desk) : Tab → Slot
  | .matrices .operations => d.operationSlot
  | .matrices .inverse => d.inverseSlot
  | .trigonometry .function => d.functionSlot
  | .trigonometry .expression => d.expressionSlot

theorem Session.slot_desk (s : Session) (tab : Tab) : s.desk.slot tab = (s.output tab).slot := by
  obtain tab | tab := tab
  · cases tab <;> rfl
  · cases tab <;> rfl

def Session.isOpen (s : Session) : Tab → Bool
  | .matrices tab => s.matrices.tab == tab
  | .trigonometry tab => s.trigonometry.tab == tab

/-! ### What is computed -/

/-- Whether the tab, if it is open, computes its output at an action. -/
def MatrixTab.answers : MatrixTab → MatrixAction → Bool
  | .operations, .calculate => true
  | .inverse, .invert => true
  | _, _ => false

/-- Whether the tab, if it is open, computes its output at an action. -/
def TrigTab.answers : TrigTab → TrigAction → Bool
  | .function, .calculate | .function, .enter => true
  | .expression, .evaluate | .expression, .explain | .expression, .enter => true
  | _, _ => false

theorem MatrixTab.shown_of_answers {tab : MatrixTab} {action : MatrixAction} (h : tab.answers action = true) :
    action.tab?.all (· == tab) = true := by
  cases tab <;> cases action <;> first | rfl | cases h

theorem TrigTab.shown_of_answers {tab : TrigTab} {action : TrigAction} (h : tab.answers action = true) :
    action.tab?.all (· == tab) = true := by
  cases tab <;> cases action <;> first | rfl | cases h

def Tab.answers : Tab → Action → Bool
  | .matrices tab, .matrices action => tab.answers action
  | .trigonometry tab, .trigonometry action => tab.answers action
  | _, _ => false

/-- What is shown of an outcome. Numbers are rounded as the settings say. -/
def Outcome.toShow (settings : Settings) : Outcome Float → Output
  | .matrix a => .shown [⟨"Résultat", a.text settings.significantDigits⟩] none
  | .rank r => .shown [⟨"Rang(A)", toString r⟩] none
  | .determinant d => .shown [⟨"Déterminant", roundedText d settings.determinantPlaces⟩] none
  | .inverse d (.ok a) =>
    .shown [⟨"Déterminant", roundedText d settings.determinantPlaces⟩,
      ⟨"Inverse", a.text settings.significantDigits⟩] none
  | .inverse d (.error notice) =>
    .shown [⟨"Déterminant", roundedText d settings.determinantPlaces⟩] (some notice)

/-- What is shown of a calculation: its outcome, or the message of its failure alone. -/
def calculationToShow (settings : Settings) : Except CalculationError (Computation Float) → Output
  | .ok c => c.outcome.toShow settings
  | .error e => .failed ("Erreur : " ++ e.message)

/-- What is shown of a number: the number under a title, or the message of a failure alone. -/
def numberToShow (title : String) : Except EvalError Float → Output
  | .ok x => .shown [⟨title, scalarText x⟩] none
  | .error e => .failed ("Erreur : " ++ e.message)

theorem Output.ofCalculation_eq (settings : Settings) (result : Except CalculationError (Computation Float)) :
    ofCalculation settings result = calculationToShow settings result := by
  cases result with
  | error e => rfl
  | ok c =>
      obtain ⟨outcome, journal⟩ := c
      cases outcome with
      | matrix | rank | determinant => rfl
      | inverse d result => cases result <;> rfl

/-- The output that a tab computes from what is typed and chosen. -/
def MatrixPanel.result (settings : Settings) (p : MatrixPanel) : MatrixTab → Output
  | .operations => calculationToShow settings (p.operation.calculate settings p.textA p.textB)
  | .inverse => calculationToShow settings (Operation.inverse.calculate settings p.textM "")

/-- The output that a tab computes from what is typed and chosen. -/
def TrigPanel.result (limit : Nat) (p : TrigPanel) : TrigTab → Output
  | .function => numberToShow p.function.name (p.function.atAngle p.angle p.unit)
  | .expression =>
    numberToShow "Résultat de l’expression" ((Evaluation.ofText limit p.expression).map Evaluation.value)

/-- The limit on expressions: that of the settings if the workings are wanted, else the default. -/
def Action.limit (settings : Settings) : Action → Nat
  | .trigonometry .explain => settings.expressionLimit
  | _ => TrigPanel.defaultLimit

/-- A visible action computes the output of the open tab if the tab answers it, and leaves all others. -/
theorem MatrixPanel.output_perform (settings : Settings) (p : MatrixPanel) (tab : MatrixTab)
    {action : MatrixAction} (hshown : action.tab?.all (· == p.tab) = true) :
    (p.perform settings action).output tab =
      if tab.answers action && p.tab == tab then p.result settings tab else p.output tab := by
  obtain ⟨openTab, textA, textB, operation, operationOutput, textM, inverseOutput⟩ := p
  cases action with
  | typeA | typeB | typeM | openTab | choose => cases tab <;> cases openTab <;> rfl
  | calculate =>
      obtain rfl : MatrixTab.operations = openTab := eq_of_beq hshown
      cases tab with
      | operations => exact Output.ofCalculation_eq settings (operation.calculate settings textA textB)
      | inverse => rfl
  | invert =>
      obtain rfl : MatrixTab.inverse = openTab := eq_of_beq hshown
      cases tab with
      | operations => rfl
      | inverse => exact Output.ofCalculation_eq settings (Operation.inverse.calculate settings textM "")

/-- A visible action computes the output of the open tab if the tab answers it, and leaves all others. -/
theorem TrigPanel.output_perform (settings : Settings) (p : TrigPanel) (tab : TrigTab) {action : TrigAction}
    (hshown : action.tab?.all (· == p.tab) = true) :
    (p.perform settings action).output tab =
      if tab.answers action && p.tab == tab then p.result (Action.limit settings (.trigonometry action)) tab
      else p.output tab := by
  obtain ⟨openTab, f, unit, angle, functionOutput, text, expressionOutput, workings?⟩ := p
  cases action with
  | typeAngle | typeExpression | openTab | chooseFunction | chooseUnit =>
      cases tab <;> cases openTab <;> rfl
  | calculate =>
      obtain rfl : TrigTab.function = openTab := eq_of_beq hshown
      cases tab <;> rfl
  | evaluate | explain =>
      obtain rfl : TrigTab.expression = openTab := eq_of_beq hshown
      cases tab <;> rfl
  | enter => cases tab <;> cases openTab <;> rfl

theorem MatrixPanel.output_clearVisible (p : MatrixPanel) (tab : MatrixTab) :
    p.clearVisible.output tab = if p.tab == tab then .empty else p.output tab := by
  obtain ⟨openTab, textA, textB, operation, operationOutput, textM, inverseOutput⟩ := p
  cases tab <;> cases openTab <;> rfl

theorem TrigPanel.output_clearVisible (p : TrigPanel) (tab : TrigTab) :
    p.clearVisible.output tab = if p.tab == tab then .empty else p.output tab := by
  obtain ⟨openTab, f, unit, angle, functionOutput, text, expressionOutput, workings?⟩ := p
  cases tab <;> cases openTab <;> rfl

/-! ### Events -/

namespace Event

/-- Whether the tab computes its output at the event. -/
def computes (e : Event) (tab : Tab) : Bool := tab.answers e.action && e.session.isOpen tab

/-- Whether the event clears the output of the tab. -/
def clears (e : Event) (tab : Tab) : Bool :=
  match e.action with
  | .clearAll => true
  | .clearVisible => e.session.isOpen tab
  | _ => false

/-- What the tab computes if it does so at the event. -/
def result (e : Event) : Tab → Output
  | .matrices tab => e.session.matrices.result e.session.settings tab
  | .trigonometry tab => e.session.trigonometry.result (e.action.limit e.session.settings) tab

theorem shows_of_computes {e : Event} {tab : Tab} (h : e.computes tab = true) :
    e.session.shows e.action = true := by
  obtain ⟨s, action⟩ := e
  obtain ⟨hanswers, hopen⟩ := Bool.and_eq_true_iff.1 h
  cases action with
  | matrices action =>
      cases tab with
      | matrices tab =>
          obtain rfl := eq_of_beq hopen
          exact MatrixTab.shown_of_answers hanswers
      | trigonometry tab => cases hanswers
  | trigonometry action =>
      cases tab with
      | matrices tab => cases hanswers
      | trigonometry tab =>
          obtain rfl := eq_of_beq hopen
          exact TrigTab.shown_of_answers hanswers
  | changeSettings | clearAll | clearVisible => rfl

theorem output_perform {s : Session} {action : Action} (hshown : s.shows action = true) (tab : Tab) :
    (s.perform action).output tab =
      if clears ⟨s, action⟩ tab then .empty
      else if computes ⟨s, action⟩ tab then result ⟨s, action⟩ tab
      else s.output tab := by
  cases tab with
  | matrices tab =>
      cases action with
      | matrices action => exact s.matrices.output_perform s.settings tab hshown
      | trigonometry | changeSettings => rfl
      | clearAll => cases tab <;> rfl
      | clearVisible => exact s.matrices.output_clearVisible tab
  | trigonometry tab =>
      cases action with
      | trigonometry action => exact s.trigonometry.output_perform s.settings tab hshown
      | matrices | changeSettings => rfl
      | clearAll => cases tab <;> rfl
      | clearVisible => exact s.trigonometry.output_clearVisible tab

end Event

/-! ### Runs -/

/-- The last event at which the tab has computed its output, if the output has not been cleared since. -/
def Tab.lastComputation? (tab : Tab) (events : List Event) : Option Event :=
  (events.reverse.takeWhile fun e => !e.clears tab).find? (·.computes tab)

theorem Tab.lastComputation?_concat (tab : Tab) (events : List Event) (e : Event) :
    tab.lastComputation? (events ++ [e]) =
      if e.clears tab then none else if e.computes tab then some e else tab.lastComputation? events := by
  rw [lastComputation?, List.reverse_concat, List.takeWhile_cons]
  cases hclears : e.clears tab with
  | true => rfl
  | false =>
      rw [if_pos (by simp), List.find?_cons]
      cases hcomputes : e.computes tab with
      | true => rfl
      | false => rfl

namespace Tab

/-- A part of a session that goes with the output of a tab. A visible action blanks it when it clears the tab,
computes it when the tab computes its output, and leaves it otherwise. -/
structure Carries {V : Type} (tab : Tab) (part : Session → V) (blank : V) (computed : Event → V) : Prop where
  first : part {} = blank
  perform : ∀ s action, s.shows action = true →
    part (s.perform action) =
      if Event.clears ⟨s, action⟩ tab then blank
      else if Event.computes ⟨s, action⟩ tab then computed ⟨s, action⟩
      else part s

theorem carries_output (tab : Tab) : tab.Carries (·.output tab) .empty (·.result tab) where
  first := by
    obtain tab | tab := tab
    · cases tab <;> rfl
    · cases tab <;> rfl
  perform _ _ hshown := Event.output_perform hshown tab

variable {V : Type} {tab : Tab} {part : Session → V} {blank : V} {computed : Event → V}

/-- An action that is not visible neither clears the tab nor computes anything. -/
theorem Carries.step (h : tab.Carries part blank computed) (e : Event) :
    part e.step.session =
      if e.clears tab then blank else if e.computes tab then computed e else part e.session := by
  obtain ⟨s, action⟩ := e
  by_cases hshown : s.shows action = true
  · rw [Event.step, Session.step_of_shows hshown]
    exact h.perform s action hshown
  · have hcomputes : Event.computes ⟨s, action⟩ tab = false :=
      Bool.eq_false_iff.2 (mt Event.shows_of_computes hshown)
    have hclears : Event.clears ⟨s, action⟩ tab = false := by
      cases action with
      | matrices | trigonometry | changeSettings => rfl
      | clearAll | clearVisible => exact absurd rfl hshown
    rw [Event.step, Session.step_of_not_shows (Bool.not_eq_true _ ▸ hshown), hclears, hcomputes]
    rfl

/-- After a run the part is what was computed last, unless it has been cleared since. -/
theorem Carries.run (h : tab.Carries part blank computed) (actions : List Action) :
    part (Session.run {} actions) =
      match tab.lastComputation? (Session.events {} actions) with
      | none => blank
      | some e => computed e := by
  induction actions using List.reverseRecOn with
  | nil => exact h.first
  | append_singleton actions action ih =>
      rw [Session.run_concat, Session.events_concat, lastComputation?_concat]
      apply (h.step ⟨Session.run {} actions, action⟩).trans
      cases hclears : Event.clears ⟨Session.run {} actions, action⟩ tab with
      | true => rfl
      | false =>
          cases hcomputes : Event.computes ⟨Session.run {} actions, action⟩ tab with
          | true => rfl
          | false => exact ih

end Tab

namespace Session

/-- Actions aimed at a widget of a tab that is not open. -/
inductive Hides (s : Session) : Action → Prop
  | choose (h : s.matrices.tab ≠ .operations) (operation : Operation) : Hides s (.matrices (.choose operation))
  | calculate (h : s.matrices.tab ≠ .operations) : Hides s (.matrices .calculate)
  | invert (h : s.matrices.tab ≠ .inverse) : Hides s (.matrices .invert)
  | chooseFunction (h : s.trigonometry.tab ≠ .function) (f : TrigFunction) :
      Hides s (.trigonometry (.chooseFunction f))
  | chooseUnit (h : s.trigonometry.tab ≠ .function) (unit : AngleUnit) :
      Hides s (.trigonometry (.chooseUnit unit))
  | calculateFunction (h : s.trigonometry.tab ≠ .function) : Hides s (.trigonometry .calculate)
  | evaluate (h : s.trigonometry.tab ≠ .expression) : Hides s (.trigonometry .evaluate)
  | explain (h : s.trigonometry.tab ≠ .expression) : Hides s (.trigonometry .explain)

theorem hides_iff (s : Session) (action : Action) : s.Hides action ↔ s.shows action = false := by
  constructor
  · rintro (⟨h, -⟩ | h | h | ⟨h, -⟩ | ⟨h, -⟩ | h | h | h) <;> exact beq_false_of_ne h.symm
  · intro h
    cases action with
    | matrices action =>
        cases action with
        | choose operation => exact .choose (ne_of_beq_false h).symm operation
        | calculate => exact .calculate (ne_of_beq_false h).symm
        | invert => exact .invert (ne_of_beq_false h).symm
        | typeA | typeB | typeM | openTab => cases h
    | trigonometry action =>
        cases action with
        | chooseFunction f => exact .chooseFunction (ne_of_beq_false h).symm f
        | chooseUnit unit => exact .chooseUnit (ne_of_beq_false h).symm unit
        | calculate => exact .calculateFunction (ne_of_beq_false h).symm
        | evaluate => exact .evaluate (ne_of_beq_false h).symm
        | explain => exact .explain (ne_of_beq_false h).symm
        | typeAngle | typeExpression | openTab | enter => cases h
    | changeSettings | clearAll | clearVisible => cases h

theorem slot_run (actions : List Action) (tab : Tab) :
    (Desk.run {} actions).slot tab = ((run {} actions).output tab).slot := by
  rw [Desk.run_start, slot_desk]

/-- After every run each tab shows what it has last computed, from what was typed and chosen at that time and
under the settings of that time, or nothing if there was no such event since it was last cleared. The actions
that are not carried out, and change nothing, are those aimed at a widget of a tab that is not open. The slots of the
flat record hold the same. -/
theorem output_run (actions : List Action) :
    (∀ tab, (run {} actions).output tab =
      match tab.lastComputation? (events {} actions) with
      | none => .empty
      | some e => e.result tab) ∧
    (∀ action, (run {} actions).Hides action ↔ (run {} actions).step action = ⟨run {} actions, false, []⟩) ∧
    ∀ tab, (Desk.run {} actions).slot tab = ((run {} actions).output tab).slot := by
  refine ⟨fun tab => (Tab.carries_output tab).run actions, fun action => ?_, slot_run actions⟩
  rw [hides_iff]
  constructor
  · exact step_of_not_shows
  · intro h
    by_contra hshown
    rw [Bool.not_eq_false] at hshown
    rw [step_of_shows hshown] at h
    cases congrArg Step.done h

/-- Each tab in turn: a singular matrix, a text that is no number, a sum, and last a row whose inverse takes the
place of what was shown for the singular matrix. -/
theorem output_run_of_failures :
    ∃ actions : List Action,
      (run {} actions).output (.matrices .operations) = .shown [⟨"Déterminant", "0.0"⟩] (some .singular) ∧
      (run {} actions).output (.matrices .inverse) = .failed "Erreur : La matrice doit être carrée (forme 1×2)" ∧
      (run {} actions).output (.trigonometry .function) = .failed "Erreur : Nombre invalide « ? »" ∧
      (run {} actions).output (.trigonometry .expression) = .shown [⟨"Résultat de l’expression", "3.0"⟩] none ∧
      (run {} (actions ++ [.clearVisible])).output (.matrices .inverse) = .empty := by
  let actions : List Action :=
    [.matrices (.choose .inverse), .matrices (.typeA "1 2\n2 4"), .matrices .calculate,
      .matrices (.openTab .inverse), .matrices (.typeM "1 2\n2 4"), .matrices .invert,
      .trigonometry (.typeAngle "?"), .trigonometry .enter,
      .trigonometry (.openTab .expression), .trigonometry (.typeExpression "1+2"), .trigonometry .evaluate,
      .matrices (.typeM "1 2"), .matrices .invert]
  obtain ⟨houtput, -⟩ := output_run actions
  obtain ⟨hcleared, -⟩ := output_run (actions ++ [.clearVisible])
  refine ⟨actions, ?_⟩
  rw [houtput, houtput, houtput, houtput, hcleared]
  decide +kernel

end Session

end DeskCalc
