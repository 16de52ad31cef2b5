import DeskCalc.Proofs.Stages
import DeskCalc.Session.State

/-!
What can go wrong in a calculation, and in which order it is looked for: the text of `A`, the text of `B` if the
operation takes it, and then the shapes of the two or of the one. A calculation fails exactly with the first of
these, and it fails in no other way; what an operation on one matrix yields has nothing to do with the text of
`B`.
-/

namespace DeskCalc

/-- The shapes that a binary operation takes: equal ones, and for a product as many columns as rows. -/
def Operation.Fits : Operation → Shape → Shape → Prop
  | .product, a, b => a.columns = b.rows
  | _, a, b => a = b

/-- The operations that only square matrices have. -/
def Operation.NeedsSquare (operation : Operation) : Prop := operation = .determinant ∨ operation = .inverse

/-- The first failure of a calculation. Each one supposes that those before it do not occur. -/
inductive Failure (operation : Operation) (textA textB : String) : CalculationError → Prop
  | textA {e : ReadError} (ha : DenseMatrix.read textA = .error e) :
      Failure operation textA textB (.reading .a e)
  | textB {a : DenseMatrix Float} {e : ReadError} (hbinary : operation.isBinary = true)
      (ha : DenseMatrix.read textA = .ok a) (hb : DenseMatrix.read textB = .error e) :
      Failure operation textA textB (.reading .b e)
  | shapes {a b : DenseMatrix Float} (hbinary : operation.isBinary = true)
      (ha : DenseMatrix.read textA = .ok a) (hb : DenseMatrix.read textB = .ok b)
      (hshapes : ¬operation.Fits a.shape b.shape) :
      Failure operation textA textB (.operation (.incompatibleShapes operation a.shape b.shape))
  | square {a : DenseMatrix Float} (hsquare : operation.NeedsSquare) (ha : DenseMatrix.read textA = .ok a)
      (hshape : a.rows ≠ a.columns) : Failure operation textA textB (.operation (.notSquare a.shape))

/-! ### Shapes -/

namespace DenseMatrix

variable {α : Type} {a b : DenseMatrix α}

theorem shape_eq_iff : a.shape = b.shape ↔ b.rows = a.rows ∧ b.columns = a.columns := by
  rw [shape, shape, Shape.mk.injEq]
  exact and_congr eq_comm eq_comm

theorem isSome_combine?_iff (f : α → α → α) : (combine? f a b).isSome = true ↔ a.shape = b.shape := by
  rw [shape_eq_iff, combine?]
  split <;> simp_all

theorem isSome_product?_iff [OfNat α 0] [Add α] [Mul α] :
    (product? a b).isSome = true ↔ a.columns = b.rows := by
  rw [product?]
  split <;> simp_all [eq_comm]

theorem isSome_square?_iff : a.square?.isSome = true ↔ a.rows = a.columns := by
  rw [square?]
  split <;> simp_all [eq_comm]

end DenseMatrix

namespace Operation

variable {operation : Operation} {a b : DenseMatrix Float} (threshold : Float)

theorem applyBinary_some (operation : Operation)
    {f : DenseMatrix Float → DenseMatrix Float → Option (DenseMatrix Float)}
    (hf : (f a b).isSome = true ↔ operation.Fits a.shape b.shape) :
    (operation.Fits a.shape b.shape ∧ ∃ c, applyBinary operation f a (some b) = .ok c) ∨
    (¬operation.Fits a.shape b.shape ∧
      applyBinary operation f a (some b) = .error (.incompatibleShapes operation a.shape b.shape)) := by
  rw [← hf]
  cases hresult : f a b with
  | some c => exact .inl ⟨rfl, ⟨.matrix c, []⟩, by rw [applyBinary, hresult]⟩
  | none => exact .inr ⟨Bool.false_ne_true, by rw [applyBinary, hresult]⟩

/-- A binary operation is defined exactly for the shapes that fit. -/
theorem apply_of_isBinary (hbinary : operation.isBinary = true) (a b : DenseMatrix Float) :
    (operation.Fits a.shape b.shape ∧ ∃ c, apply threshold operation a (some b) = .ok c) ∨
    (¬operation.Fits a.shape b.shape ∧
      apply threshold operation a (some b) = .error (.incompatibleShapes operation a.shape b.shape)) := by
  cases operation with
  | addition => exact applyBinary_some .addition (DenseMatrix.isSome_combine?_iff _)
  | subtraction => exact applyBinary_some .subtraction (DenseMatrix.isSome_combine?_iff _)
  | product => exact applyBinary_some .product DenseMatrix.isSome_product?_iff
  | termwiseProduct => exact applyBinary_some .termwiseProduct (DenseMatrix.isSome_combine?_iff _)
  | transpose | rank | determinant | inverse => cases hbinary

theorem applySquare_cases (f : {n : Nat} → Grid Float n n → 0 < n → Computation Float) (a : DenseMatrix Float) :
    (a.rows = a.columns ∧ ∃ c, applySquare f a = .ok c) ∨
    (a.rows ≠ a.columns ∧ applySquare f a = .error (.notSquare a.shape)) := by
  rw [Ne, ← DenseMatrix.isSome_square?_iff]
  unfold applySquare
  cases hsquare : a.square? with
  | some g => exact .inl ⟨rfl, _, rfl⟩
  | none => exact .inr ⟨Bool.false_ne_true, rfl⟩

/-- Of the other operations, those on square matrices fail exactly for matrices that are not square. -/
theorem apply_of_not_isBinary (hbinary : operation.isBinary = false) (a : DenseMatrix Float) :
    ((operation.NeedsSquare → a.rows = a.columns) ∧ ∃ c, apply threshold operation a none = .ok c) ∨
    (operation.NeedsSquare ∧ a.rows ≠ a.columns ∧
      apply threshold operation a none = .error (.notSquare a.shape)) := by
  cases operation with
  | addition | subtraction | product | termwiseProduct => cases hbinary
  | transpose | rank =>
      left
      refine ⟨?_, _, rfl⟩
      rintro (h | h) <;> cases h
  | determinant =>
      rcases applySquare_cases (fun g _ => ⟨.determinant g.determinant, []⟩) a with ⟨hshape, hok⟩ | ⟨hshape, herror⟩
      · exact .inl ⟨fun _ => hshape, hok⟩
      · exact .inr ⟨.inl rfl, hshape, herror⟩
  | inverse =>
      rcases applySquare_cases (fun g n_pos => Computation.inverse threshold g n_pos) a with
        ⟨hshape, hok⟩ | ⟨hshape, herror⟩
      · exact .inl ⟨fun _ => hshape, hok⟩
      · exact .inr ⟨.inr rfl, hshape, herror⟩

/-! ### Calculations -/

variable {settings : Settings} {textA textB : String}

theorem readOperand_of_ok {operand : Operand} {text : String} (h : DenseMatrix.read text = .ok a) :
    readOperand operand text = .ok a :=
  congrArg (·.mapError (CalculationError.reading operand)) h

theorem readOperand_of_error {operand : Operand} {text : String} {e : ReadError}
    (h : DenseMatrix.read text = .error e) : readOperand operand text = .error (.reading operand e) :=
  congrArg (·.mapError (CalculationError.reading operand)) h

theorem calculate_of_read_error {e : ReadError} (h : DenseMatrix.read textA = .error e) :
    calculate settings operation textA textB = .error (.reading .a e) := by
  change (readOperand .a textA).bind _ = _
  rw [readOperand_of_error h]
  rfl

theorem calculate_of_isBinary (hbinary : operation.isBinary = true) (ha : DenseMatrix.read textA = .ok a) :
    calculate settings operation textA textB = (readOperand .b textB).bind fun b =>
      (operation.apply settings.singularThreshold a (some b)).mapError .operation := by
  change (readOperand .a textA).bind _ = _
  rw [readOperand_of_ok ha, hbinary]
  change ((readOperand .b textB).map some).bind _ = _
  cases readOperand .b textB with
  | error e => rfl
  | ok b => rfl

theorem calculate_of_not_isBinary (hbinary : operation.isBinary = false) (ha : DenseMatrix.read textA = .ok a) :
    calculate settings operation textA textB =
      (operation.apply settings.singularThreshold a none).mapError .operation := by
  change (readOperand .a textA).bind _ = _
  rw [readOperand_of_ok ha, hbinary]
  rfl

end Operation

theorem Failure.calculate_eq (settings : Settings) {operation : Operation} {textA textB : String}
    {e : CalculationError} (h : Failure operation textA textB e) :
    operation.calculate settings textA textB = .error e := by
  cases h with
  | textA ha => exact Operation.calculate_of_read_error ha
  | textB hbinary ha hb =>
      rw [Operation.calculate_of_isBinary hbinary ha, Operation.readOperand_of_error hb]
      rfl
  | @shapes a b hbinary ha hb hshapes =>
      rw [Operation.calculate_of_isBinary hbinary ha, Operation.readOperand_of_ok hb]
      obtain ⟨hfits, -⟩ | ⟨-, hresult⟩ :=
        Operation.apply_of_isBinary settings.singularThreshold hbinary a b
      · exact absurd hfits hshapes
      · exact congrArg (·.mapError CalculationError.operation) hresult
  | @square a hsquare ha hshape =>
      have hunary : operation.isBinary = false := by
        rcases hsquare with rfl | rfl <;> rfl
      rw [Operation.calculate_of_not_isBinary hunary ha]
      obtain ⟨hsquare', -⟩ | ⟨-, -, hresult⟩ :=
        Operation.apply_of_not_isBinary settings.singularThreshold hunary a
      · exact absurd (hsquare' hsquare) hshape
      · exact congrArg (·.mapError CalculationError.operation) hresult

namespace Operation

/-- Something is wrong or the calculation succeeds. -/
theorem calculate_eq_ok_or_failure (settings : Settings) (operation : Operation) (textA textB : String) :
    (∃ c, calculate settings operation textA textB = .ok c) ∨ ∃ e, Failure operation textA textB e := by
  cases ha : DenseMatrix.read textA with
  | error e => exact .inr ⟨_, .textA ha⟩
  | ok a =>
      cases hbinary : operation.isBinary with
      | false =>
          rw [calculate_of_not_isBinary hbinary ha]
          obtain ⟨-, c, hc⟩ | ⟨hsquare, hshape, -⟩ :=
            apply_of_not_isBinary settings.singularThreshold hbinary a
          · exact .inl ⟨c, congrArg (·.mapError CalculationError.operation) hc⟩
          · exact .inr ⟨_, .square hsquare ha hshape⟩
      | true =>
          cases hb : DenseMatrix.read textB with
          | error e => exact .inr ⟨_, .textB hbinary ha hb⟩
          | ok b =>
              rw [calculate_of_isBinary hbinary ha, readOperand_of_ok hb]
              obtain ⟨-, c, hc⟩ | ⟨hshapes, -⟩ :=
                apply_of_isBinary settings.singularThreshold hbinary a b
              · exact .inl ⟨c, congrArg (·.mapError CalculationError.operation) hc⟩
              · exact .inr ⟨_, .shapes hbinary ha hb hshapes⟩

theorem calculate_eq_error_iff {e : CalculationError} :
    calculate settings operation textA textB = .error e ↔ Failure operation textA textB e := by
  constructor
  · intro h
    obtain ⟨c, hok⟩ | ⟨e', hfailure⟩ := calculate_eq_ok_or_failure settings operation textA textB
    · cases h.symm.trans hok
    · cases h.symm.trans (hfailure.calculate_eq settings)
      exact hfailure
  · exact Failure.calculate_eq settings

theorem exists_calculate_eq_ok_iff :
    (∃ c, calculate settings operation textA textB = .ok c) ↔ ∀ e, ¬Failure operation textA textB e := by
  constructor
  · rintro ⟨c, hok⟩ e hfailure
    cases hok.symm.trans (hfailure.calculate_eq settings)
  · intro h
    obtain hok | ⟨e, hfailure⟩ := calculate_eq_ok_or_failure settings operation textA textB
    · exact hok
    · exact absurd hfailure (h e)

/-- An operation on one matrix does not look at the other text. -/
theorem calculate_congr_of_not_isBinary (hbinary : operation.isBinary = false) (textB' : String) :
    calculate settings operation textA textB' = calculate settings operation textA textB := by
  change (readOperand .a textA).bind _ = (readOperand .a textA).bind _
  rw [hbinary]
  rfl

end Operation

/-! ### The two tabs -/

namespace Session

variable {s s' : Session}

theorem step_calculate (htab : s.matrices.tab = .operations) :
    s.step (.matrices .calculate) =
      ⟨s.perform (.matrices .calculate), true, s.reports (.matrices .calculate)⟩ :=
  if_pos (by simp [shows, MatrixAction.tab?, htab])

theorem step_invert (htab : s.matrices.tab = .inverse) :
    s.step (.matrices .invert) = ⟨s.perform (.matrices .invert), true, s.reports (.matrices .invert)⟩ :=
  if_pos (by simp [shows, MatrixAction.tab?, htab])

/-- The tab for inverses shows what the tab for operations shows for the inverse of the same text, whatever the
text of `B` is there. -/
theorem invert_eq_calculate (htab : s.matrices.tab = .operations) (hoperation : s.matrices.operation = .inverse)
    (htab' : s'.matrices.tab = .inverse) (htext : s'.matrices.textM = s.matrices.textA)
    (hsettings : s'.settings = s.settings) :
    (s.step (.matrices .calculate)).done = true ∧ (s'.step (.matrices .invert)).done = true ∧
    (s'.step (.matrices .invert)).session.matrices.inverseOutput =
      (s.step (.matrices .calculate)).session.matrices.operationOutput ∧
    (s'.step (.matrices .invert)).journal = (s.step (.matrices .calculate)).journal := by
  have hcalculate : Operation.inverse.calculate s.settings s'.matrices.textM "" =
      s.matrices.operation.calculate s.settings s.matrices.textA s.matrices.textB := by
    rw [htext, hoperation]
    exact Operation.calculate_congr_of_not_isBinary rfl ""
  have hreports : s'.reports (.matrices .invert) = s.reports (.matrices .calculate) := by
    simp only [reports, MatrixPanel.reports, htext, hsettings, hoperation]
    rfl
  rw [step_calculate htab, step_invert htab']
  refine ⟨rfl, rfl, ?_, congrArg (fun reports => Step.journal ⟨s, true, reports⟩) hreports⟩
  simp only [perform, MatrixPanel.perform, hcalculate, hsettings]

end Session

namespace Operation

/-- The failures of a calculation, in their order, and its independence of `B` when the operation takes only one
matrix. -/
theorem calculate_failure (settings : Settings) (operation : Operation) (textA textB : String) :
    (∀ e, calculate settings operation textA textB = .error e ↔ Failure operation textA textB e) ∧
    ((∃ c, calculate settings operation textA textB = .ok c) ↔ ∀ e, ¬Failure operation textA textB e) ∧
    (∀ missing, calculate settings operation textA textB ≠ .error (.operation (.missingOperand missing))) ∧
    (operation.isBinary = false → ∀ textB',
      calculate settings operation textA textB' = calculate settings operation textA textB) ∧
    (∀ s s' : Session, s.settings = settings → s'.settings = settings →
      s.matrices.tab = .operations → s.matrices.operation = .inverse → s.matrices.textA = textA →
      s'.matrices.tab = .inverse → s'.matrices.textM = textA →
      (s.step (.matrices .calculate)).done = true ∧ (s'.step (.matrices .invert)).done = true ∧
      (s'.step (.matrices .invert)).session.matrices.inverseOutput =
        (s.step (.matrices .calculate)).session.matrices.operationOutput ∧
      (s'.step (.matrices .invert)).journal = (s.step (.matrices .calculate)).journal) := by
  refine ⟨fun _ => calculate_eq_error_iff, exists_calculate_eq_ok_iff, ?_, ?_, ?_⟩
  · intro missing h
    cases calculate_eq_error_iff.1 h
  · intro hbinary textB'
    exact calculate_congr_of_not_isBinary hbinary textB'
  · intro s s' hsettings hsettings' htab hoperation htextA htab' htextM
    apply Session.invert_eq_calculate htab hoperation htab'
    · rw [htextM, htextA]
    · rw [hsettings', hsettings]

/-- Two rows have no product, and an inverse is shown whatever is typed for `B`. -/
theorem calculate_failure_of_rows :
    calculate ({} : Settings).clamped .product "1 2" "3 4" =
      .error (.operation (.incompatibleShapes .product ⟨1, 2⟩ ⟨1, 2⟩)) ∧
    calculate ({} : Settings).clamped .inverse "2 1\n5 3" "?" =
      calculate ({} : Settings).clamped .inverse "2 1\n5 3" "" ∧
    (Session.step { matrices := { tab := .inverse } } (.matrices .invert)).session.matrices.inverseOutput =
      (Session.step { matrices := { operation := .inverse, textA := "2 1\n5 3", textB := "?" } }
        (.matrices .calculate)).session.matrices.operationOutput := by
  have hread : ∀ text ∈ ["1 2", "3 4"], (DenseMatrix.read text).toOption.map DenseMatrix.shape = some ⟨1, 2⟩ := by
    decide +kernel
  have hrow : ∀ text ∈ ["1 2", "3 4"], ∃ a, DenseMatrix.read text = .ok a ∧ a.shape = ⟨1, 2⟩ := by
    intro text htext
    obtain ⟨a, ha, hshape⟩ := Option.map_eq_some_iff.1 (hread text htext)
    exact ⟨a, toOption_eq_some_iff.1 ha, hshape⟩
  obtain ⟨a, ha, hshapeA⟩ := hrow "1 2" (by decide)
  obtain ⟨b, hb, hshapeB⟩ := hrow "3 4" (by decide)
  obtain ⟨hproduct, -⟩ := calculate_failure ({} : Settings).clamped .product "1 2" "3 4"
  obtain ⟨-, -, -, htextB, htabs⟩ := calculate_failure ({} : Settings).clamped .inverse "2 1\n5 3" ""
  refine ⟨?_, htextB rfl "?", ?_⟩
  · have hfits : ¬Operation.product.Fits a.shape b.shape := by
      rw [hshapeA, hshapeB]
      show ¬2 = 1
      omega
    rw [(hproduct _).2 (.shapes rfl ha hb hfits), hshapeA, hshapeB]
  · exact (htabs _ _ rfl rfl rfl rfl rfl rfl rfl).2.2.1

end Operation

end DeskCalc
