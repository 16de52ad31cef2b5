import DeskCalc.Proofs.Session.Desk

/-!
The two halves of a session do not see each other. A run is compared with the same run without the actions of one
half: of what is left, the other half sees the same actions carried out, with the same states after each of them. In
the flat record, where a button could write any field, the fields of that half are then the same.
-/

namespace DeskCalc

namespace Action

def isMatrices : Action → Bool
  | .matrices _ => true
  | _ => false

def isTrigonometry : Action → Bool
  | .trigonometry _ => true
  | _ => false

end Action

/-- What is seen of an event through a view of sessions. -/
structure Observation (V : Type) where
  action : Action
  after : V
  done : Bool
  journal : List (JournalEntry Float)

def Event.observe {V : Type} (view : Session → V) (e : Event) : Observation V where
  action := e.action
  after := view e.step.session
  done := e.step.done
  journal := e.step.journal

namespace Session

/-- A run without some actions is seen as the run with them, if these leave the view as it is and what is seen
of any other action depends on the view alone. -/
theorem observe_filter {V : Type} {view : Session → V} {drops : Action → Bool}
    (hframe : ∀ s action, drops action = true → view (s.step action).session = view s)
    (hcongr : ∀ s t action, drops action = false → view s = view t →
      Event.observe view ⟨s, action⟩ = Event.observe view ⟨t, action⟩)
    {s t : Session} (h : view s = view t) (actions : List Action) :
    view (s.run (actions.filter (!drops ·))) = view (t.run actions) ∧
      (s.events (actions.filter (!drops ·))).map (·.observe view) =
        ((t.events actions).filter (!drops ·.action)).map (·.observe view) := by
  -- a dropped action takes the two runs to different sessions, of which only the view is the same
  induction actions generalizing s t with
  | nil => exact ⟨h, rfl⟩
  | cons action rest ih =>
      cases hdrops : drops action with
      | true =>
          have hview : view s = view (t.step action).session := h.trans (hframe t action hdrops).symm
          simpa [events, run, hdrops] using ih hview
      | false =>
          have hobserve := hcongr s t action hdrops h
          have hview : view (s.step action).session = view (t.step action).session :=
            congrArg Observation.after hobserve
          obtain ⟨hrun, hevents⟩ := ih hview
          refine ⟨?_, ?_⟩
          · simpa [run, hdrops] using hrun
          · simp [events, hdrops, hobserve, hevents]

def matrixView (s : Session) : MatrixPanel × Settings := (s.matrices, s.settings)

def trigView (s : Session) : TrigPanel × Settings := (s.trigonometry, s.settings)

theorem matrixView_step (s : Session) (action : Action) (h : action.isTrigonometry = true) :
    (s.step action).session.matrixView = s.matrixView := by
  cases action with
  | trigonometry action =>
      cases hshown : s.shows (.trigonometry action) with
      | true =>
          rw [step_of_shows hshown]
          rfl
      | false => rw [step_of_not_shows hshown]
  | matrices | changeSettings | clearAll | clearVisible => cases h

theorem trigView_step (s : Session) (action : Action) (h : action.isMatrices = true) :
    (s.step action).session.trigView = s.trigView := by
  cases action with
  | matrices action =>
      cases hshown : s.shows (.matrices action) with
      | true =>
          rw [step_of_shows hshown]
          rfl
      | false => rw [step_of_not_shows hshown]
  | trigonometry | changeSettings | clearAll | clearVisible => cases h

theorem observe_matrixView_congr (s t : Session) (action : Action) (h : action.isTrigonometry = false)
    (hview : s.matrixView = t.matrixView) :
    Event.observe matrixView ⟨s, action⟩ = Event.observe matrixView ⟨t, action⟩ := by
  obtain ⟨matrices, trigonometry, settings⟩ := s
  obtain ⟨matrices', trigonometry', settings'⟩ := t
  cases hview
  cases action with
  | matrices action =>
      have hsame : shows ⟨matrices, trigonometry', settings⟩ (.matrices action) =
          shows ⟨matrices, trigonometry, settings⟩ (.matrices action) := rfl
      unfold Event.observe Event.step
      cases hshown : shows ⟨matrices, trigonometry, settings⟩ (.matrices action) with
      | true =>
          rw [step_of_shows hshown, step_of_shows (hsame.trans hshown)]
          rfl
      | false =>
          rw [step_of_not_shows hshown, step_of_not_shows (hsame.trans hshown)]
          rfl
  | changeSettings | clearAll | clearVisible => rfl
  | trigonometry action => cases h

theorem observe_trigView_congr (s t : Session) (action : Action) (h : action.isMatrices = false)
    (hview : s.trigView = t.trigView) :
    Event.observe trigView ⟨s, action⟩ = Event.observe trigView ⟨t, action⟩ := by
  obtain ⟨matrices, trigonometry, settings⟩ := s
  obtain ⟨matrices', trigonometry', settings'⟩ := t
  cases hview
  cases action with
  | trigonometry action =>
      have hsame : shows ⟨matrices', trigonometry, settings⟩ (.trigonometry action) =
          shows ⟨matrices, trigonometry, settings⟩ (.trigonometry action) := rfl
      unfold Event.observe Event.step
      cases hshown : shows ⟨matrices, trigonometry, settings⟩ (.trigonometry action) with
      | true =>
          rw [step_of_shows hshown, step_of_shows (hsame.trans hshown)]
          rfl
      | false =>
          rw [step_of_not_shows hshown, step_of_not_shows (hsame.trans hshown)]
          rfl
  | changeSettings | clearAll | clearVisible => rfl
  | matrices action => cases h

end Session

/-! ### Fields of the flat record -/

namespace Desk

/-- The fields that the matrix half works on. -/
def matrixFields (d : Desk) : MatrixTab × String × String × Operation × Slot × String × Slot × Settings :=
  (d.matrixTab, d.textA, d.textB, d.operation, d.operationSlot, d.textM, d.inverseSlot, d.settings)

/-- The fields that the trigonometric half works on. -/
def trigFields (d : Desk) :
    TrigTab × TrigFunction × AngleUnit × String × Slot × String × Slot × Workings × Settings :=
  (d.trigTab, d.function, d.unit, d.angle, d.functionSlot, d.expression, d.expressionSlot, d.workings, d.settings)

end Desk

namespace Session

theorem matrixFields_congr {s t : Session} (h : s.matrixView = t.matrixView) :
    s.desk.matrixFields = t.desk.matrixFields := by
  obtain ⟨matrices, trigonometry, settings⟩ := s
  obtain ⟨matrices', trigonometry', settings'⟩ := t
  cases h
  rfl

theorem trigFields_congr {s t : Session} (h : s.trigView = t.trigView) :
    s.desk.trigFields = t.desk.trigFields := by
  obtain ⟨matrices, trigonometry, settings⟩ := s
  obtain ⟨matrices', trigonometry', settings'⟩ := t
  cases h
  rfl

/-- Neither half of a session interferes with the other. Without the actions of one half, a run leaves the other
half and the settings as before, and of the actions that remain the same ones are carried out, each with the same
outcome for that half and the same lines of the journal. So the flat record has the same fields for that half. -/
theorem run_filter_halves (s : Session) (actions : List Action) :
    ((s.run (actions.filter (!·.isTrigonometry))).matrices = (s.run actions).matrices ∧
      (s.run (actions.filter (!·.isTrigonometry))).settings = (s.run actions).settings ∧
      (s.events (actions.filter (!·.isTrigonometry))).map (·.observe matrixView) =
        ((s.events actions).filter (!·.action.isTrigonometry)).map (·.observe matrixView)) ∧
    ((s.run (actions.filter (!·.isMatrices))).trigonometry = (s.run actions).trigonometry ∧
      (s.run (actions.filter (!·.isMatrices))).settings = (s.run actions).settings ∧
      (s.events (actions.filter (!·.isMatrices))).map (·.observe trigView) =
        ((s.events actions).filter (!·.action.isMatrices)).map (·.observe trigView)) ∧
    (s.desk.run (actions.filter (!·.isTrigonometry))).matrixFields = (s.desk.run actions).matrixFields ∧
    (s.desk.run (actions.filter (!·.isMatrices))).trigFields = (s.desk.run actions).trigFields := by
  obtain ⟨hmatrices, hmatrixEvents⟩ :=
    observe_filter matrixView_step observe_matrixView_congr (rfl : s.matrixView = s.matrixView) actions
  obtain ⟨htrigonometry, htrigEvents⟩ :=
    observe_filter trigView_step observe_trigView_congr (rfl : s.trigView = s.trigView) actions
  refine ⟨⟨congrArg Prod.fst hmatrices, congrArg Prod.snd hmatrices, hmatrixEvents⟩,
    ⟨congrArg Prod.fst htrigonometry, congrArg Prod.snd htrigonometry, htrigEvents⟩, ?_, ?_⟩
  · rw [desk_run, desk_run]
    exact matrixFields_congr hmatrices
  · rw [desk_run, desk_run]
    exact trigFields_congr htrigonometry

end Session

end DeskCalc
