import DeskCalc.Proofs.Expression.Outcome
import DeskCalc.Proofs.Operation.Threshold
import DeskCalc.Proofs.Session.Outputs

/-!
How the parts of what is shown go together. A slot never mixes a message with blocks, a notice stands beside the
determinant that it is about, and the workings of an expression are those of the value shown with them: both were
computed at the same event, or the workings are gone. All of this is said of the flat record, whose fields could hold
anything.
-/

namespace DeskCalc

/-! ### Texts of the workings -/

theorem Token.text_ne_empty (t : Token) : t.text ≠ "" := by
  cases t with
  | number v => exact plainText_ne_empty v
  | constant c => cases c <;> decide
  | call f => exact mt String.toList_eq_nil_iff.2 (Name.function f).text_ne_nil
  | operator op => cases op <;> decide
  | sign s => cases s <;> decide
  | opening | closing => decide

theorem Token.listText_ne_empty {ts : List Token} (h : ts ≠ []) : listText ts ≠ "" := by
  obtain ⟨t, rest, rfl⟩ := List.exists_cons_of_ne_nil h
  have ht := t.text_ne_empty
  cases rest with
  | nil => simpa [listText] using ht
  | cons next rest => simp [listText, String.intercalate_cons_cons, ht]

theorem Expression.text_ne_empty (e : Expression) : e.text ≠ "" := by
  cases e with
  | number v => exact plainText_ne_empty v
  | constant c => cases c <;> decide
  | negative | binary | call => simp [text]

/-- Nothing that was evaluated has an empty form. -/
theorem Workings.ne_empty_of_ofText {limit : Nat} {text : String} {r : Evaluation}
    (h : Evaluation.ofText limit text = .ok r) :
    (ofEvaluation r).tokens ≠ "" ∧ (ofEvaluation r).polish ≠ "" ∧ (ofEvaluation r).tree ≠ "" := by
  obtain ⟨-, hpolish, htree⟩ := Evaluation.parse_eq_ok_iff.1 (Evaluation.parse_of_ofText h).1
  refine ⟨Token.listText_ne_empty ?_, Token.listText_ne_empty ?_, r.tree.text_ne_empty⟩
  · intro hnil
    rw [hnil] at hpolish
    cases hpolish
  · intro hnil
    rw [hnil] at htree
    cases htree

/-! ### Slots -/

/-- Whether a slot is empty, or holds a message and nothing else, or blocks and no message. -/
def Slot.IsProper (o : Slot) : Prop :=
  (o.blocks = [] ∧ o.notice = "" ∧ o.message = "") ∨
  (o.blocks = [] ∧ o.notice = "" ∧ o.message ≠ "") ∨
  (o.blocks ≠ [] ∧ o.message = "")

theorem isProper_failed (message : String) : (Output.failed ("Erreur : " ++ message)).slot.IsProper :=
  .inr (.inl ⟨rfl, rfl, by simp [Output.slot]⟩)

theorem isProper_numberToShow (title : String) (result : Except EvalError Float) :
    (numberToShow title result).slot.IsProper := by
  cases result with
  | ok x => exact .inr (.inr ⟨List.cons_ne_nil _ _, rfl⟩)
  | error e => exact isProper_failed e.message

theorem notice_numberToShow (title : String) (result : Except EvalError Float) :
    (numberToShow title result).slot.notice = "" := by
  cases result <;> rfl

theorem Outcome.isProper_toShow (settings : Settings) (outcome : Outcome Float) :
    (outcome.toShow settings).slot.IsProper := by
  right
  right
  cases outcome with
  | matrix | rank | determinant => exact ⟨List.cons_ne_nil _ _, rfl⟩
  | inverse d result => cases result <;> exact ⟨List.cons_ne_nil _ _, rfl⟩

theorem isProper_calculationToShow (settings : Settings)
    (result : Except CalculationError (Computation Float)) : (calculationToShow settings result).slot.IsProper := by
  cases result with
  | ok c => exact c.outcome.isProper_toShow settings
  | error e => exact isProper_failed e.message

theorem Event.isProper_result (e : Event) (tab : Tab) : (e.result tab).slot.IsProper := by
  cases tab with
  | matrices tab => cases tab <;> exact isProper_calculationToShow _ _
  | trigonometry tab => cases tab <;> exact isProper_numberToShow _ _

/-! ### Notices -/

namespace Operation

variable {settings : Settings} {operation : Operation} {textA textB : String} {c : Computation Float}
  {notice : Notice}

theorem eq_matrix_of_applyBinary {f : DenseMatrix Float → DenseMatrix Float → Option (DenseMatrix Float)}
    {a : DenseMatrix Float} {b? : Option (DenseMatrix Float)} (h : operation.applyBinary f a b? = .ok c) :
    ∃ m, c = ⟨.matrix m, []⟩ := by
  unfold applyBinary at h
  split at h
  · cases h
  split at h
  next m _ =>
    cases h
    exact ⟨m, rfl⟩
  next => cases h

theorem exists_of_applySquare {f : {n : Nat} → Grid Float n n → 0 < n → Computation Float}
    {a : DenseMatrix Float} (h : applySquare f a = .ok c) : ∃ g, a.square? = some g ∧ c = f g a.rows_pos := by
  unfold applySquare at h
  split at h
  next g hg =>
    cases h
    exact ⟨g, hg, rfl⟩
  next => cases h

/-- A notice comes from an inverse that is refused, and goes with the determinant of the matrix typed. -/
theorem exists_of_notice? (h : operation.calculate settings textA textB = .ok c)
    (hnotice : c.outcome.notice? = some notice) :
    ∃ a d, DenseMatrix.read textA = .ok a ∧ a.determinant? = some d ∧ c.outcome = .inverse d (.error notice) := by
  obtain ⟨a, b?, hread, -, happly⟩ := exists_of_calculate h
  cases operation with
  | addition | subtraction | product | termwiseProduct =>
      obtain ⟨m, rfl⟩ := eq_matrix_of_applyBinary happly
      cases hnotice
  | transpose | rank =>
      cases happly
      cases hnotice
  | determinant =>
      obtain ⟨g, -, rfl⟩ := exists_of_applySquare (f := fun g _ => ⟨.determinant g.determinant, []⟩) happly
      cases hnotice
  | inverse =>
      obtain ⟨g, hg, rfl⟩ := exists_of_applySquare happly
      refine ⟨a, g.determinant, hread, by rw [DenseMatrix.determinant?, hg]; rfl, ?_⟩
      obtain ⟨-, hcase⟩ | ⟨-, -, hcase⟩ | ⟨-, b, -, hcase⟩ :=
        Computation.inverse_cases settings.singularThreshold g a.rows_pos
      · rw [hcase] at hnotice ⊢
        cases hnotice
        rfl
      · rw [hcase] at hnotice ⊢
        cases hnotice
        rfl
      · rw [hcase] at hnotice
        cases hnotice

end Operation

/-- The first matrix typed for a tab. -/
def MatrixPanel.typed (p : MatrixPanel) : MatrixTab → String
  | .operations => p.textA
  | .inverse => p.textM

/-- Only an outcome with a notice is shown with one. -/
theorem Outcome.exists_of_notice_toShow {settings : Settings} {outcome : Outcome Float}
    (h : (outcome.toShow settings).slot.notice ≠ "") : ∃ notice, outcome.notice? = some notice := by
  cases outcome with
  | matrix | rank | determinant => exact absurd rfl h
  | inverse d result =>
      cases result with
      | ok b => exact absurd rfl h
      | error notice => exact ⟨notice, rfl⟩

/-- A notice is shown beside the determinant of the first matrix typed, and beside nothing else. -/
theorem Operation.blocks_of_notice {settings : Settings} {operation : Operation} {textA textB : String}
    (h : (calculationToShow settings (operation.calculate settings textA textB)).slot.notice ≠ "") :
    ∃ a d, DenseMatrix.read textA = .ok a ∧ a.determinant? = some d ∧
      (calculationToShow settings (operation.calculate settings textA textB)).slot.blocks =
        [⟨"Déterminant", roundedText d settings.determinantPlaces⟩] := by
  cases hresult : operation.calculate settings textA textB with
  | error e =>
      rw [hresult] at h
      exact absurd rfl h
  | ok c =>
      rw [hresult] at h
      obtain ⟨notice, hnotice⟩ := Outcome.exists_of_notice_toShow h
      obtain ⟨a, d, hread, hd, houtcome⟩ := exists_of_notice? hresult hnotice
      refine ⟨a, d, hread, hd, ?_⟩
      rw [calculationToShow, houtcome]
      rfl

theorem Event.blocks_of_notice {e : Event} {tab : Tab} (h : (e.result tab).slot.notice ≠ "") :
    ∃ matrixTab a d, tab = .matrices matrixTab ∧ DenseMatrix.read (e.session.matrices.typed matrixTab) = .ok a ∧
      a.determinant? = some d ∧
      (e.result tab).slot.blocks = [⟨"Déterminant", roundedText d e.session.settings.determinantPlaces⟩] := by
  cases tab with
  | matrices tab =>
      have hblocks : ∃ a d, DenseMatrix.read (e.session.matrices.typed tab) = .ok a ∧ a.determinant? = some d ∧
          (e.result (.matrices tab)).slot.blocks =
            [⟨"Déterminant", roundedText d e.session.settings.determinantPlaces⟩] := by
        cases tab <;> exact Operation.blocks_of_notice h
      obtain ⟨a, d, hblocks⟩ := hblocks
      exact ⟨tab, a, d, rfl, hblocks⟩
  | trigonometry tab => cases tab <;> exact absurd (notice_numberToShow _ _) h

/-! ### Workings -/

/-- The workings that go with the value computed at the event: none, unless they are asked for. -/
def Event.workings? (e : Event) : Option Workings :=
  match e.action with
  | .trigonometry .explain =>
    (Evaluation.ofText e.session.settings.expressionLimit e.session.trigonometry.expression).toOption.map
      Workings.ofEvaluation
  | _ => none

theorem Tab.carries_workings :
    (Tab.trigonometry .expression).Carries (·.trigonometry.workings?) none Event.workings? where
  first := rfl
  perform s action hshown := by
    obtain ⟨matrices, ⟨openTab, f, unit, angle, functionOutput, text, expressionOutput, workings?⟩, settings⟩ := s
    cases action with
    | matrices | changeSettings | clearAll => rfl
    | clearVisible => cases openTab <;> rfl
    | trigonometry action =>
        cases action with
        | typeAngle | typeExpression | openTab | chooseFunction | chooseUnit => cases openTab <;> rfl
        | calculate =>
            obtain rfl : TrigTab.function = openTab := eq_of_beq hshown
            rfl
        | evaluate | explain =>
            obtain rfl : TrigTab.expression = openTab := eq_of_beq hshown
            rfl
        | enter => cases openTab <;> rfl

theorem Event.exists_of_workings? {e : Event} {w : Workings} (h : e.workings? = some w) :
    e.action = .trigonometry .explain ∧ ∃ r, w = .ofEvaluation r ∧
      Evaluation.ofText e.session.settings.expressionLimit e.session.trigonometry.expression = .ok r ∧
      e.result (.trigonometry .expression) = .shown [⟨"Résultat de l’expression", scalarText r.value⟩] none := by
  obtain ⟨s, action⟩ := e
  unfold workings? at h
  split at h
  next haction =>
    obtain rfl : action = .trigonometry .explain := haction
    obtain ⟨r, hr, rfl⟩ := Option.map_eq_some_iff.1 h
    have hread : Evaluation.ofText s.settings.expressionLimit s.trigonometry.expression = .ok r :=
      toOption_eq_some_iff.1 hr
    refine ⟨rfl, r, rfl, hread, ?_⟩
    simp [result, TrigPanel.result, Action.limit, hread, Except.map, numberToShow]
  next => cases h

/-! ### Runs -/

theorem Tab.mem_of_lastComputation? {tab : Tab} {events : List Event} {e : Event}
    (h : tab.lastComputation? events = some e) : e ∈ events :=
  List.mem_reverse.1 ((List.takeWhile_sublist _).subset (List.mem_of_find?_eq_some h))

namespace Session

theorem output_run_cases (actions : List Action) (tab : Tab) :
    (run {} actions).output tab = .empty ∨
      ∃ e ∈ events {} actions, (run {} actions).output tab = e.result tab := by
  have houtput := (Tab.carries_output tab).run actions
  cases hlast : tab.lastComputation? (events {} actions) with
  | none =>
      rw [hlast] at houtput
      exact .inl houtput
  | some e =>
      rw [hlast] at houtput
      exact .inr ⟨e, Tab.mem_of_lastComputation? hlast, houtput⟩

/-- After every run each slot is empty, or holds a message alone, or blocks without a message. A notice is shown for
matrices only, beside the one block of the determinant of a matrix typed before. The workings are blank, or none of
their forms is; then they are those of an expression whose value is all that is shown with them. -/
theorem coherent_run (actions : List Action) :
    Desk.run {} actions = (run {} actions).desk ∧
    (∀ tab, ((Desk.run {} actions).slot tab).IsProper) ∧
    (∀ tab, ((Desk.run {} actions).slot tab).notice ≠ "" →
      ∃ matrixTab, tab = .matrices matrixTab ∧ ∃ e ∈ events {} actions, ∃ a d,
        DenseMatrix.read (e.session.matrices.typed matrixTab) = .ok a ∧ a.determinant? = some d ∧
        ((Desk.run {} actions).slot tab).blocks =
          [⟨"Déterminant", roundedText d e.session.settings.determinantPlaces⟩]) ∧
    ((Desk.run {} actions).workings = ⟨"", "", ""⟩ ∨
      ((Desk.run {} actions).workings.tokens ≠ "" ∧ (Desk.run {} actions).workings.polish ≠ "" ∧
        (Desk.run {} actions).workings.tree ≠ "") ∧
      ∃ e ∈ events {} actions, e.action = .trigonometry .explain ∧ ∃ r,
        Evaluation.ofText e.session.settings.expressionLimit e.session.trigonometry.expression = .ok r ∧
        (Desk.run {} actions).workings = .ofEvaluation r ∧
        (Desk.run {} actions).expressionSlot = ⟨[⟨"Résultat de l’expression", scalarText r.value⟩], "", ""⟩) := by
  refine ⟨Desk.run_start actions, fun tab => ?_, fun tab hnotice => ?_, ?_⟩
  · rw [slot_run]
    obtain hempty | ⟨e, -, hresult⟩ := output_run_cases actions tab
    · rw [hempty]
      exact .inl ⟨rfl, rfl, rfl⟩
    · rw [hresult]
      exact e.isProper_result tab
  · rw [slot_run] at hnotice ⊢
    obtain hempty | ⟨e, he, hresult⟩ := output_run_cases actions tab
    · exact absurd (congrArg (·.slot.notice) hempty) hnotice
    · rw [hresult] at hnotice ⊢
      obtain ⟨matrixTab, a, d, htab, hread, hd, hblocks⟩ := Event.blocks_of_notice hnotice
      exact ⟨matrixTab, htab, e, he, a, d, hread, hd, hblocks⟩
  · -- the workings and the value are those of the same event
    have hworkings := Tab.carries_workings.run actions
    have houtput := (Tab.carries_output (.trigonometry .expression)).run actions
    rw [Desk.run_start]
    cases hlast : (Tab.trigonometry .expression).lastComputation? (events {} actions) with
    | none =>
        rw [hlast] at hworkings
        exact .inl (congrArg (·.getD .blank) hworkings)
    | some e =>
        rw [hlast] at hworkings houtput
        cases hw : e.workings? with
        | none => exact .inl (congrArg (·.getD .blank) (hworkings.trans hw))
        | some w =>
            obtain ⟨haction, r, rfl, hr, hresult⟩ := Event.exists_of_workings? hw
            have hforms : (run {} actions).desk.workings = .ofEvaluation r :=
              congrArg (·.getD .blank) (hworkings.trans hw)
            have hvalue : (run {} actions).desk.expressionSlot =
                ⟨[⟨"Résultat de l’expression", scalarText r.value⟩], "", ""⟩ :=
              congrArg Output.slot (houtput.trans hresult)
            have hmem := Tab.mem_of_lastComputation? hlast
            rw [hforms]
            exact .inr ⟨Workings.ne_empty_of_ofText hr, e, hmem, haction, r, hr, rfl, hvalue⟩

/-- A singular matrix and an expression: there is a notice beside the determinant, and there are workings beside the
value. -/
theorem coherent_run_of_notice_and_workings :
    ∃ actions : List Action,
      (Desk.run {} actions).inverseSlot = ⟨[⟨"Déterminant", "0.0"⟩], "Matrice singulière : pas d’inverse.", ""⟩ ∧
      (Desk.run {} actions).workings = ⟨"2 * 3", "2 3 *", "(2 * 3)"⟩ ∧
      (Desk.run {} actions).expressionSlot = ⟨[⟨"Résultat de l’expression", "6.0"⟩], "", ""⟩ ∧
      (∃ e ∈ events {} actions, ∃ a d, DenseMatrix.read e.session.matrices.textM = .ok a ∧
        a.determinant? = some d ∧ roundedText d e.session.settings.determinantPlaces = "0.0") ∧
      ∃ e ∈ events {} actions, ∃ r,
        Evaluation.ofText e.session.settings.expressionLimit e.session.trigonometry.expression = .ok r ∧
        Workings.ofEvaluation r = ⟨"2 * 3", "2 3 *", "(2 * 3)"⟩ ∧ scalarText r.value = "6.0" := by
  let actions : List Action :=
    [.matrices (.typeM "1 2\n2 4"), .matrices (.openTab .inverse), .matrices .invert,
      .trigonometry (.openTab .expression), .trigonometry (.typeExpression "2*3"), .trigonometry .explain]
  have hslot : (Desk.run {} actions).inverseSlot =
      ⟨[⟨"Déterminant", "0.0"⟩], "Matrice singulière : pas d’inverse.", ""⟩ := by decide +kernel
  have hworkings : (Desk.run {} actions).workings = ⟨"2 * 3", "2 3 *", "(2 * 3)"⟩ := by decide +kernel
  have hvalue : (Desk.run {} actions).expressionSlot = ⟨[⟨"Résultat de l’expression", "6.0"⟩], "", ""⟩ := by
    decide +kernel
  obtain ⟨-, -, hnotices, hforms⟩ := coherent_run actions
  refine ⟨actions, hslot, hworkings, hvalue, ?_, ?_⟩
  · have hnotice : ((Desk.run {} actions).slot (.matrices .inverse)).notice ≠ "" := by
      rw [Desk.slot, hslot]
      decide
    obtain ⟨matrixTab, htab, e, he, a, d, hread, hd, hblocks⟩ := hnotices (.matrices .inverse) hnotice
    cases htab
    rw [Desk.slot, hslot] at hblocks
    have hblock := List.head_eq_of_cons_eq hblocks
    exact ⟨e, he, a, d, hread, hd, (congrArg Block.text hblock).symm⟩
  · rcases hforms with hblank | ⟨-, e, he, -, r, hr, hform, hshown⟩
    · rw [hworkings] at hblank
      exact absurd hblank (by decide)
    · rw [hvalue] at hshown
      have hblock := List.head_eq_of_cons_eq (congrArg Slot.blocks hshown)
      exact ⟨e, he, r, hr, hform.symm.trans hworkings, (congrArg Block.text hblock).symm⟩

end Session

end DeskCalc
