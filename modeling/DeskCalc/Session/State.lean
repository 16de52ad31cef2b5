import DeskCalc.Session.Matrices
import DeskCalc.Session.Trigonometry

/-!
A session: two halves that share nothing but the settings. An action that needs a tab which is not open
changes nothing.
-/

namespace DeskCalc

structure Session where
  matrices : MatrixPanel := {}
  trigonometry : TrigPanel := {}
  settings : Settings := Settings.clamped {}

inductive Action
  | matrices (action : MatrixAction)
  | trigonometry (action : TrigAction)
  | changeSettings (settings : Settings)
  /-- Everything is put back to the beginning. -/
  | clearAll
  /-- The outputs of the open tabs are removed. -/
  | clearVisible

/-- What becomes of an action. -/
structure Step where
  session : Session
  /-- Whether what the action is aimed at was visible. -/
  done : Bool := true
  reports : List Report := []

/-- What is written into the journal. -/
def Step.journal (s : Step) : List (JournalEntry Float) := (Report.written s.reports).filterMap Report.entry?

namespace Session

/-- Whether what the action is aimed at is visible. -/
def shows (s : Session) : Action → Bool
  | .matrices action => action.tab?.all (· == s.matrices.tab)
  | .trigonometry action => action.tab?.all (· == s.trigonometry.tab)
  | .changeSettings _ | .clearAll | .clearVisible => true

/-- The session after a visible action. -/
def perform (s : Session) : Action → Session
  | .matrices action => { s with matrices := s.matrices.perform s.settings action }
  | .trigonometry action => { s with trigonometry := s.trigonometry.perform s.settings action }
  | .changeSettings settings => { s with settings }
  | .clearAll => {}
  | .clearVisible =>
    { s with
      matrices := s.matrices.clearVisible
      trigonometry := s.trigonometry.clearVisible }

/-- What is reported while a visible action is carried out. -/
def reports (s : Session) : Action → List Report
  | .matrices action => s.matrices.reports s.settings action
  | .trigonometry action => s.trigonometry.reports s.settings action
  | .changeSettings _ | .clearAll | .clearVisible => []

/-- What becomes of an action in a session. -/
def step (s : Session) (action : Action) : Step :=
  if s.shows action then ⟨s.perform action, true, s.reports action⟩ else ⟨s, false, []⟩

end Session

end DeskCalc
