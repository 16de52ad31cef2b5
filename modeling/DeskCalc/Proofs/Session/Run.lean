import DeskCalc.Session.State

/-!
Runs of a session: one action after the other, each in the session that the actions before it have led to. A run
is taken apart at its last action, whose effect depends on the session before it alone.
-/

namespace DeskCalc

/-- An action and the session in which it is taken. -/
structure Event where
  session : Session
  action : Action

def Event.step (e : Event) : Step := e.session.step e.action

namespace Session

/-- The session after a run. -/
def run (s : Session) (actions : List Action) : Session :=
  actions.foldl (fun s action => (s.step action).session) s

/-- What happens in a run, in order. -/
def events (s : Session) : List Action → List Event
  | [] => []
  | action :: rest => ⟨s, action⟩ :: events (s.step action).session rest

variable (s : Session) (actions actions' : List Action) (action : Action)

theorem step_of_shows {s : Session} {action : Action} (h : s.shows action = true) :
    s.step action = ⟨s.perform action, true, s.reports action⟩ :=
  if_pos h

theorem step_of_not_shows {s : Session} {action : Action} (h : s.shows action = false) :
    s.step action = ⟨s, false, []⟩ :=
  if_neg (Bool.not_eq_true _ ▸ h)

theorem run_append : s.run (actions ++ actions') = (s.run actions).run actions' :=
  List.foldl_append

theorem run_concat : s.run (actions ++ [action]) = ((s.run actions).step action).session :=
  s.run_append actions [action]

theorem events_append : s.events (actions ++ actions') = s.events actions ++ (s.run actions).events actions' := by
  induction actions generalizing s with
  | nil => rfl
  | cons action rest ih => exact congrArg (⟨s, action⟩ :: ·) (ih (s.step action).session)

theorem events_concat : s.events (actions ++ [action]) = s.events actions ++ [⟨s.run actions, action⟩] :=
  s.events_append actions [action]

end Session

end DeskCalc
