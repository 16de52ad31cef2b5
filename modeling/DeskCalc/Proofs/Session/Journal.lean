import DeskCalc.Proofs.Display.Scalar
import DeskCalc.Proofs.Operation.Failures
import DeskCalc.Proofs.Session.Coherence

/-!
What the journal of a session tells. Whatever is read or computed is reported, but only what passes the standard
filter is written. This is a warning for each inversion that ends in a notice, and exactly one, with the determinant
of its result and the shape of the matrix read. So the journal of a run is known from the computations carried out in
it: the lines of those that are refused, in their order, and nothing else.
-/

namespace DeskCalc

/-! ### Lines -/

/-- What a line says of a refused inverse. -/
def Notice.reason : Notice → String
  | .singular => "matrice singulière, inverse non calculée"
  | .outOfRange => "inverse hors plage des f64"

/-- A line of the journal. -/
def warning (reason : String) (determinant : Float) (rows columns : Nat) : String :=
  "WARN calculatrice_matrices::noyau::operations: " ++ reason ++ " det=" ++ journalText determinant ++ " forme=" ++
    (toString rows ++ "×" ++ toString columns)

theorem reason_eq_of_warning_eq {reason reason' : String} {determinant : Float} {rows columns : Nat}
    (h : warning reason determinant rows columns = warning reason' determinant rows columns) :
    reason = reason' := by
  -- what follows the reason is taken off from the end
  have hforme := (String.append_left_inj _).1 h
  have hdeterminant := (String.append_left_inj _).1 hforme
  have hdet := (String.append_left_inj _).1 hdeterminant
  have hreason := (String.append_left_inj _).1 hdet
  exact (String.append_right_inj _).1 hreason

theorem JournalEntry.line_eq (entry : JournalEntry Float) :
    entry.line = warning entry.notice.reason entry.determinant entry.shape.rows entry.shape.columns := by
  have horigin : Level.warn.name ++ " " ++ Part.operations.path ++ ": " =
      "WARN calculatrice_matrices::noyau::operations: " := by decide +kernel
  obtain ⟨notice, d, shape⟩ := entry
  cases notice with
  | singular =>
      exact congrArg (· ++ "matrice singulière, inverse non calculée" ++ " det=" ++ journalText d ++
        " forme=" ++ shape.text) horigin
  | outOfRange =>
      exact congrArg (· ++ "inverse hors plage des f64" ++ " det=" ++ journalText d ++
        " forme=" ++ shape.text) horigin

theorem JournalEntry.line_eq_iff (entry : JournalEntry Float) (notice : Notice) :
    entry.line = warning notice.reason entry.determinant entry.shape.rows entry.shape.columns ↔
      entry.notice = notice := by
  rw [line_eq]
  constructor
  · intro h
    have hreason := reason_eq_of_warning_eq h
    revert hreason
    cases entry.notice <;> cases notice <;> decide +kernel
  · rintro rfl
    rfl

/-- The determinant in a line is read back as the double that it is, if it is finite. -/
theorem readNumber?_journalText {x : Float} (hx : x.isFinite = true) :
    readNumber? (journalText x).toList = some x := by
  have hs : Style.journal.WritesExponents := Style.exists_bareExponent
  obtain ⟨t, htext, hsigned, hfinite, rfl⟩ := Style.exists_typedNumber hs hx
  rw [journalText, String.toList_ofList, htext, hsigned]
  exact t.readNumber?_sign_append hfinite

theorem journalText_of_isNaN {x : Float} (hx : x.isNaN = true) : journalText x = "NaN" := by
  rw [journalText, Style.text, if_pos (Binary64.isNaN_iff.1 hx)]
  rfl

/-- There are two doubles of infinite magnitude. -/
theorem eq_infinite_of_ordinal {x : Float} (hx : Binary64.ordinal x = Binary64.infinite) :
    x = 1 / 0 ∨ x = -1 / 0 := by
  cases hsign : Binary64.isNegative x with
  | false => exact .inl (Binary64.ext_ordinal hsign hx)
  | true => exact .inr (Binary64.ext_ordinal hsign hx)

/-- What the text of a determinant tells: the double itself, or that it is not finite and in which way. -/
theorem journalText_cases (x : Float) :
    (x.isFinite = true ∧ readNumber? (journalText x).toList = some x) ∨
    (x.isNaN = true ∧ journalText x = "NaN") ∨
    (x = 1 / 0 ∧ journalText x = "inf") ∨
    (x = -1 / 0 ∧ journalText x = "-inf") := by
  rcases Nat.lt_trichotomy (Binary64.ordinal x) Binary64.infinite with hlt | heq | hgt
  · have hfinite := Binary64.isFinite_iff.2 hlt
    exact .inl ⟨hfinite, readNumber?_journalText hfinite⟩
  · right
    right
    rcases eq_infinite_of_ordinal heq with rfl | rfl
    · exact .inl ⟨rfl, by decide +kernel⟩
    · exact .inr ⟨rfl, by decide +kernel⟩
  · have hnan := Binary64.isNaN_iff.2 hgt
    exact .inr (.inl ⟨hnan, journalText_of_isNaN hnan⟩)

/-! ### Computations -/

/-- The entry about an outcome for a matrix of a shape, if an inverse was refused. -/
def Outcome.refusal? {α : Type} (shape : Shape) : Outcome α → Option (JournalEntry α)
  | .inverse d (.error notice) => some ⟨notice, d, shape⟩
  | _ => none

theorem Outcome.refusal?_eq_none_iff {α : Type} {shape : Shape} {outcome : Outcome α} :
    outcome.refusal? shape = none ↔ outcome.notice? = none := by
  cases outcome with
  | matrix | rank | determinant => exact iff_of_true rfl rfl
  | inverse d result =>
      cases result with
      | ok b => exact iff_of_true rfl rfl
      | error notice => exact iff_of_false (Option.some_ne_none _) (Option.some_ne_none _)

namespace Operation

variable {threshold : Float} {operation : Operation} {a : DenseMatrix Float} {b? : Option (DenseMatrix Float)}
  {c : Computation Float}

/-- An operation writes the entry of its outcome, which only an inversion may have. -/
theorem journal_of_apply (h : operation.apply threshold a b? = .ok c) :
    c.journal = (c.outcome.refusal? a.shape).toList ∧ (c.outcome.notice? ≠ none → operation = .inverse) := by
  cases operation with
  | addition | subtraction | product | termwiseProduct =>
      obtain ⟨m, rfl⟩ := eq_matrix_of_applyBinary h
      exact ⟨rfl, fun hnotice => absurd rfl hnotice⟩
  | transpose | rank =>
      cases h
      exact ⟨rfl, fun hnotice => absurd rfl hnotice⟩
  | determinant =>
      obtain ⟨g, -, rfl⟩ := exists_of_applySquare (f := fun g _ => ⟨.determinant g.determinant, []⟩) h
      exact ⟨rfl, fun hnotice => absurd rfl hnotice⟩
  | inverse =>
      obtain ⟨g, hg, rfl⟩ := exists_of_applySquare h
      have hshape : a.shape = ⟨a.rows, a.rows⟩ := by
        have hsquare := DenseMatrix.isSome_square?_iff.1 (Option.isSome_of_eq_some hg)
        rw [DenseMatrix.shape, ← hsquare]
      refine ⟨?_, fun _ => rfl⟩
      rw [hshape]
      obtain ⟨-, hcase⟩ | ⟨-, -, hcase⟩ | ⟨-, b, -, hcase⟩ := Computation.inverse_cases threshold g a.rows_pos
      all_goals
        rw [hcase]
        rfl

end Operation

/-- A computation with matrices as they are typed. -/
structure Calculation where
  settings : Settings
  operation : Operation
  textA : String
  textB : String

namespace Calculation

def result (c : Calculation) : Except CalculationError (Computation Float) :=
  c.operation.calculate c.settings c.textA c.textB

/-- The entry about a computation, if it is an inversion that ends in a notice: the notice and the determinant
of the result, and the shape of the matrix read. -/
def refusal? (c : Calculation) : Option (JournalEntry Float) :=
  c.result.toOption.bind fun r => (DenseMatrix.read c.textA).toOption.bind fun a => r.outcome.refusal? a.shape

theorem journal_of_result {c : Calculation} {r : Computation Float} (h : c.result = .ok r) :
    r.journal = c.refusal?.toList := by
  obtain ⟨a, b?, hread, -, happly⟩ := Operation.exists_of_calculate h
  rw [refusal?, h, hread]
  exact (Operation.journal_of_apply happly).1

theorem refusal?_eq_some_iff {c : Calculation} {entry : JournalEntry Float} :
    c.refusal? = some entry ↔
      c.operation = .inverse ∧ ∃ a r, DenseMatrix.read c.textA = .ok a ∧ c.result = .ok r ∧
        r.outcome = .inverse entry.determinant (.error entry.notice) ∧ entry.shape = ⟨a.rows, a.columns⟩ := by
  constructor
  · intro h
    obtain ⟨r, hr, h⟩ := Option.bind_eq_some_iff.1 h
    obtain ⟨a, ha, h⟩ := Option.bind_eq_some_iff.1 h
    have hresult := toOption_eq_some_iff.1 hr
    obtain ⟨a', b?, -, -, happly⟩ := Operation.exists_of_calculate hresult
    unfold Outcome.refusal? at h
    split at h
    next d notice houtcome =>
      cases h
      have hnotice : r.outcome.notice? ≠ none := by
        rw [houtcome]
        exact Option.some_ne_none notice
      exact ⟨(Operation.journal_of_apply happly).2 hnotice, a, r, toOption_eq_some_iff.1 ha, hresult, houtcome, rfl⟩
    next => cases h
  · rintro ⟨-, a, r, hread, hresult, houtcome, hshape⟩
    obtain ⟨notice, d, shape⟩ := entry
    obtain rfl : shape = a.shape := hshape
    rw [refusal?, hresult, hread]
    exact congrArg (Outcome.refusal? a.shape) houtcome

/-- Every inversion with a notice has an entry. -/
theorem refusal?_ne_none_iff {c : Calculation} :
    c.refusal? ≠ none ↔ c.operation = .inverse ∧ ∃ r, c.result = .ok r ∧ r.outcome.notice? ≠ none := by
  constructor
  · intro h
    obtain ⟨entry, hentry⟩ := Option.ne_none_iff_exists'.1 h
    obtain ⟨hoperation, a, r, -, hresult, houtcome, -⟩ := refusal?_eq_some_iff.1 hentry
    refine ⟨hoperation, r, hresult, ?_⟩
    rw [houtcome]
    exact Option.some_ne_none entry.notice
  · rintro ⟨-, r, hresult, hnotice⟩
    obtain ⟨a, b?, hread, -, -⟩ := Operation.exists_of_calculate hresult
    rw [refusal?, hresult, hread]
    exact mt Outcome.refusal?_eq_none_iff.1 hnotice

end Calculation

/-! ### Reports -/

theorem JournalFilter.passes_standard_debug (part : Part) : standard.passes .debug part.path = false := by
  cases part <;> decide +kernel

theorem JournalFilter.passes_standard_warn (part : Part) : standard.passes .warn part.path = true := by
  cases part <;> decide +kernel

namespace Report

theorem written_append (reports reports' : List Report) :
    written (reports ++ reports') = written reports ++ written reports' :=
  List.filter_append reports reports'

theorem written_flatMap {A : Type} (f : A → List Report) (l : List A) :
    written (l.flatMap f) = l.flatMap fun a => written (f a) :=
  List.filter_flatMap

/-- Only warnings pass the standard filter. -/
theorem passes_standard_iff (r : Report) : r.passes .standard = true ↔ ∃ entry, r = refused entry := by
  cases r with
  | refused entry => exact iff_of_true (JournalFilter.passes_standard_warn _) ⟨entry, rfl⟩
  | matrixRead | applied | functionComputed | expressionComputed | expressionRefused =>
      refine iff_of_false (Bool.eq_false_iff.1 (JournalFilter.passes_standard_debug _)) ?_
      rintro ⟨entry, h⟩
      cases h

theorem written_eq_nil {reports : List Report} (h : ∀ entry, refused entry ∉ reports) : written reports = [] := by
  refine List.filter_eq_nil_iff.2 fun r hr hpasses => ?_
  obtain ⟨entry, rfl⟩ := (passes_standard_iff r).1 hpasses
  exact h entry hr

theorem written_map_refused (entries : List (JournalEntry Float)) :
    written (entries.map refused) = entries.map refused := by
  refine List.filter_eq_self.2 fun r hr => ?_
  obtain ⟨entry, -, rfl⟩ := List.mem_map.1 hr
  exact (passes_standard_iff _).2 ⟨entry, rfl⟩

theorem filterMap_entry?_map_refused (entries : List (JournalEntry Float)) :
    (entries.map refused).filterMap entry? = entries := by
  rw [List.filterMap_map]
  exact List.filterMap_some

end Report

open Report

theorem Operation.written_applyReports (threshold : Float) (operation : Operation) (a : DenseMatrix Float)
    (b? : Option (DenseMatrix Float)) :
    written (operation.applyReports threshold a b?) =
      ((operation.apply threshold a b?).toOption.bind fun c =>
        c.outcome.refusal? ⟨a.rows, a.columns⟩).toList.map refused := by
  unfold applyReports
  cases hresult : operation.apply threshold a b? with
  | error e => rfl
  | ok c =>
      have happlied : written [applied operation a.shape] = [] := written_eq_nil (by simp)
      dsimp only
      rw [written_append, written_map_refused, happlied, List.append_nil, (journal_of_apply hresult).1]
      rfl

namespace Calculation

/-- What is reported while a computation is carried out. -/
def reports (c : Calculation) : List Report := c.operation.calculateReports c.settings c.textA c.textB

variable {c : Calculation} {a : DenseMatrix Float} {b? : Option (DenseMatrix Float)}

/-- Reading writes nothing, and what follows on it the refusal. -/
theorem written_of_apply (read : List Report) (hread : ∀ entry, refused entry ∉ read)
    (ha : DenseMatrix.read c.textA = .ok a)
    (hreports : c.reports = read ++ c.operation.applyReports c.settings.singularThreshold a b?)
    (hresult : c.result = (c.operation.apply c.settings.singularThreshold a b?).mapError .operation) :
    written c.reports = c.refusal?.toList.map refused := by
  rw [hreports, written_append, written_eq_nil hread, List.nil_append, Operation.written_applyReports, refusal?,
    hresult, ha]
  cases c.operation.apply c.settings.singularThreshold a b? with
  | ok r => rfl
  | error e => rfl

theorem written_of_error {e : CalculationError} (hread : ∀ entry, refused entry ∉ c.reports)
    (hresult : c.result = .error e) : written c.reports = c.refusal?.toList.map refused := by
  rw [written_eq_nil hread, refusal?, hresult]
  rfl

/-- A computation writes its refusal, if there is one, and nothing else, whether it succeeds or not. -/
theorem written_reports (c : Calculation) : written c.reports = c.refusal?.toList.map refused := by
  obtain ⟨settings, operation, textA, textB⟩ := c
  cases ha : DenseMatrix.read textA with
  | error e =>
      refine written_of_error ?_ (Operation.calculate_of_read_error ha)
      simp [reports, Operation.calculateReports, ha]
  | ok a =>
      cases hbinary : operation.isBinary with
      | false =>
          refine written_of_apply [matrixRead a.shape] (by simp) ha ?_
            (Operation.calculate_of_not_isBinary hbinary ha)
          simp [reports, Operation.calculateReports, ha, hbinary]
      | true =>
          have hresult : operation.calculate settings textA textB = _ := Operation.calculate_of_isBinary hbinary ha
          cases hb : DenseMatrix.read textB with
          | error e =>
              rw [Operation.readOperand_of_error hb] at hresult
              refine written_of_error ?_ hresult
              simp [reports, Operation.calculateReports, ha, hbinary, hb]
          | ok b =>
              rw [Operation.readOperand_of_ok hb] at hresult
              refine written_of_apply [matrixRead a.shape, matrixRead b.shape] (by simp) ha ?_ hresult
              simp [reports, Operation.calculateReports, ha, hbinary, hb]

end Calculation

theorem TrigFunction.written_atAngleReports (f : TrigFunction) (text : String) (unit : AngleUnit) :
    written (f.atAngleReports text unit) = [] := by
  refine written_eq_nil fun entry => ?_
  unfold atAngleReports
  split
  · simp
  · split <;> simp

theorem Evaluation.written_reports (limit : Nat) (text : String) : written (reports limit text) = [] := by
  refine written_eq_nil fun entry => ?_
  unfold reports
  split <;> simp

theorem TrigPanel.written_reports (settings : Settings) (p : TrigPanel) (action : TrigAction) :
    written (p.reports settings action) = [] := by
  obtain ⟨openTab, f, unit, angle, functionOutput, text, expressionOutput, workings?⟩ := p
  cases action with
  | typeAngle | typeExpression | openTab | chooseFunction | chooseUnit => rfl
  | calculate => exact TrigFunction.written_atAngleReports _ _ _
  | evaluate | explain => exact Evaluation.written_reports _ _
  | enter =>
      cases openTab with
      | function => exact TrigFunction.written_atAngleReports _ _ _
      | expression => exact Evaluation.written_reports _ _

/-! ### Runs -/

namespace Event

/-- The computation with matrices that an event carries out: that of the button of the open tab. -/
def calculation? (e : Event) : Option Calculation :=
  match e.action, e.session.matrices with
  | .matrices .calculate, p =>
    if p.tab = .operations then some ⟨e.session.settings, p.operation, p.textA, p.textB⟩ else none
  | .matrices .invert, p => if p.tab = .inverse then some ⟨e.session.settings, .inverse, p.textM, ""⟩ else none
  | _, _ => none

/-- A step writes the refusal of the computation that it carries out, if there is one. -/
theorem written_step (e : Event) :
    written e.step.reports = (e.calculation?.bind Calculation.refusal?).toList.map refused := by
  obtain ⟨⟨⟨openTab, textA, textB, operation, operationOutput, textM, inverseOutput⟩, p, settings⟩, action⟩ := e
  cases action with
  | changeSettings | clearAll | clearVisible => rfl
  | trigonometry action =>
      unfold step Session.step
      split
      · exact p.written_reports settings action
      · rfl
  | matrices action =>
      cases action with
      | typeA | typeB | typeM | openTab => rfl
      | choose operation => cases openTab <;> rfl
      | calculate =>
          cases openTab with
          | operations => exact Calculation.written_reports ⟨settings, operation, textA, textB⟩
          | inverse => rfl
      | invert =>
          cases openTab with
          | operations => rfl
          | inverse => exact Calculation.written_reports ⟨settings, .inverse, textM, ""⟩

theorem journal_step (e : Event) : e.step.journal = (e.calculation?.bind Calculation.refusal?).toList := by
  rw [Step.journal, written_step, filterMap_entry?_map_refused]

theorem journal_step_ne_nil_iff (e : Event) :
    e.step.journal ≠ [] ↔ ∃ c, e.calculation? = some c ∧ c.refusal? ≠ none := by
  rw [journal_step]
  cases hcalculation : e.calculation? with
  | none => simp
  | some c => simp

end Event

namespace Session

/-- The journal of a run: in the order of the computations carried out, an entry for each one that is refused. -/
theorem journal_run (s : Session) (actions : List Action) :
    (s.events actions).flatMap (·.step.journal) =
      ((s.events actions).filterMap Event.calculation?).filterMap Calculation.refusal? := by
  rw [List.filterMap_filterMap, List.filterMap_eq_flatMap_toList]
  exact List.flatMap_congr fun e _ => e.journal_step

theorem written_run (s : Session) (actions : List Action) :
    written ((s.events actions).flatMap (·.step.reports)) =
      (((s.events actions).filterMap Event.calculation?).filterMap Calculation.refusal?).map refused := by
  rw [written_flatMap, ← journal_run, List.map_flatMap]
  exact List.flatMap_congr fun e _ => by rw [e.written_step, e.journal_step]

/-- Of all that is reported when an operation is applied directly, when it is computed from typed matrices, and in a
run, the standard filter lets through the refusals of inverses, in their order and nothing else, and these are the
entries of the journal. There is one exactly for an inversion with a notice: with this notice, which the line tells,
the determinant of the result, and the shape of the matrix read. -/
theorem journal_of_refusals :
    (∀ threshold operation a b?, written (Operation.applyReports threshold operation a b?) =
      ((operation.apply threshold a b?).toOption.bind fun c =>
        c.outcome.refusal? ⟨a.rows, a.columns⟩).toList.map refused) ∧
    (∀ threshold operation a b? c, Operation.apply (α := Float) threshold operation a b? = .ok c →
      c.journal = (c.outcome.refusal? ⟨a.rows, a.columns⟩).toList ∧
      (c.outcome.notice? ≠ none → operation = .inverse)) ∧
    (∀ c : Calculation, written c.reports = c.refusal?.toList.map refused ∧
      ∀ r, c.result = .ok r → r.journal = c.refusal?.toList) ∧
    (∀ (s : Session) (actions : List Action),
      written ((s.events actions).flatMap (·.step.reports)) =
        (((s.events actions).filterMap Event.calculation?).filterMap Calculation.refusal?).map refused ∧
      (s.events actions).flatMap (·.step.journal) =
        ((s.events actions).filterMap Event.calculation?).filterMap Calculation.refusal?) ∧
    (∀ e : Event, e.step.journal ≠ [] ↔ ∃ c, e.calculation? = some c ∧ c.refusal? ≠ none) ∧
    (∀ c : Calculation, c.refusal? ≠ none ↔
      c.operation = .inverse ∧ ∃ r, c.result = .ok r ∧ r.outcome.notice? ≠ none) ∧
    (∀ (c : Calculation) (entry : JournalEntry Float), c.refusal? = some entry ↔
      c.operation = .inverse ∧ ∃ a r, DenseMatrix.read c.textA = .ok a ∧ c.result = .ok r ∧
        r.outcome = .inverse entry.determinant (.error entry.notice) ∧ entry.shape = ⟨a.rows, a.columns⟩) ∧
    ∀ entry : JournalEntry Float,
      (entry.line = warning "matrice singulière, inverse non calculée" entry.determinant entry.shape.rows
          entry.shape.columns ↔ entry.notice = .singular) ∧
      (entry.line = warning "inverse hors plage des f64" entry.determinant entry.shape.rows
          entry.shape.columns ↔ entry.notice = .outOfRange) ∧
      ((entry.determinant.isFinite = true ∧
          readNumber? (journalText entry.determinant).toList = some entry.determinant) ∨
        (entry.determinant.isNaN = true ∧ journalText entry.determinant = "NaN") ∨
        (entry.determinant = 1 / 0 ∧ journalText entry.determinant = "inf") ∨
        (entry.determinant = -1 / 0 ∧ journalText entry.determinant = "-inf")) :=
  ⟨Operation.written_applyReports, fun _ _ _ _ _ => Operation.journal_of_apply,
    fun c => ⟨c.written_reports, fun _ => Calculation.journal_of_result⟩,
    fun s actions => ⟨s.written_run actions, s.journal_run actions⟩, Event.journal_step_ne_nil_iff,
    fun _ => Calculation.refusal?_ne_none_iff, fun _ _ => Calculation.refusal?_eq_some_iff,
    fun entry => ⟨entry.line_eq_iff .singular, entry.line_eq_iff .outOfRange, journalText_cases entry.determinant⟩⟩

/-- A singular matrix, a button that is not visible, a matrix that is not square, and an expression: all that is
read and computed is reported, and the singular matrix alone is written about. -/
theorem journal_of_refusals_of_singular :
    ∃ actions : List Action,
      ((events {} actions).flatMap (·.step.reports)).map Report.level =
        [.debug, .warn, .debug, .debug, .debug] ∧
      (written ((events {} actions).flatMap (·.step.reports))).map Report.level = [.warn] ∧
      ((events {} actions).flatMap (·.step.journal)).map JournalEntry.line = [
        "WARN calculatrice_matrices::noyau::operations: matrice singulière, inverse non calculée det=0.0 forme=2×2"] := by
  let actions : List Action :=
    [.matrices (.typeM "1 2\n2 4"), .matrices (.openTab .inverse), .matrices .invert, .matrices .calculate,
      .matrices (.typeM "1 2"), .matrices .invert, .trigonometry (.openTab .expression),
      .trigonometry (.typeExpression "1+2"), .trigonometry .evaluate]
  obtain ⟨-, -, -, hrun, -⟩ := journal_of_refusals
  obtain ⟨hwritten, hjournal⟩ := hrun {} actions
  refine ⟨actions, by decide +kernel, ?_, ?_⟩
  · rw [hwritten]
    decide +kernel
  · rw [hjournal]
    decide +kernel

end Session

end DeskCalc
