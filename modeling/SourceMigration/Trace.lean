/-!
# SourceMigration — the trace of a migration

The record of one run: phases that open and close, and between them what was decided, changed,
scheduled and run. Events are only appended. An event belongs to the innermost phase that was
open when it was recorded, and the end of a phase to the phase that it closes; phases are named
by the position of the event that opened them.

## Results

* `finish_of_none_open` — closing a phase when none is open changes nothing.
-/

namespace SourceMigration

/-- What an event reports. -/
inductive EventKind where
  | phaseStart
  | phaseEnd
  | mutation
  | passScheduled
  | passExecuted
  | importAction
  | warning
  | inspection
  deriving DecidableEq, Repr

/-- The name under which a kind of event is reported. -/
def EventKind.title : EventKind → String
  | .phaseStart => "phase_start"
  | .phaseEnd => "phase_end"
  | .mutation => "mutation"
  | .passScheduled => "pass_scheduled"
  | .passExecuted => "pass_executed"
  | .importAction => "import_action"
  | .warning => "warning"
  | .inspection => "inspection"

/-- A detail of an event. -/
inductive Detail where
  | text (s : String)
  | flag (b : Bool)
  deriving DecidableEq, Repr

/-- One event of a trace. -/
structure Event where
  kind : EventKind
  description : String
  /-- The position of the event that opened the phase to which this one belongs. -/
  parent : Option Nat
  details : List (String × Detail) := []
  deriving DecidableEq, Repr

/-- The events recorded so far and the phases still open, the innermost first. -/
structure Trace where
  events : Array Event := #[]
  openPhases : List Nat := []
  deriving Inhabited

namespace Trace

/-- Records an event in the innermost open phase. -/
def record (t : Trace) (kind : EventKind) (description : String)
    (details : List (String × Detail)) : Trace :=
  { t with events := t.events.push ⟨kind, description, t.openPhases.head?, details⟩ }

/-- Opens a phase. -/
def start (t : Trace) (name : String) (detail : String := "") : Trace :=
  let after := t.record .phaseStart name [("detail", .text detail)]
  { after with openPhases := t.events.size :: t.openPhases }

/-- Closes the innermost open phase; without one, nothing is recorded. -/
def finish (t : Trace) : Trace :=
  match t.openPhases with
  | [] => t
  | p :: outer => ⟨t.events.push ⟨.phaseEnd, "End Phase", some p, []⟩, outer⟩

/-- Records that part of the tree was changed. -/
def mutation (t : Trace) (node before after : String) : Trace :=
  t.record .mutation ("Transformed " ++ node) [("before", .text before), ("after", .text after)]

/-- Records that a pass was scheduled. -/
def scheduled (t : Trace) (description : String) : Trace :=
  t.record .passScheduled ("Scheduled " ++ description) []

/-- Records that a pass was run, and whether it changed the tree. -/
def executed (t : Trace) (description : String) (changed : Bool) : Trace :=
  t.record .passExecuted ("Ran " ++ description) [("changed", .flag changed)]

/-- Records an attempt to add or remove an import. -/
def importAction (t : Trace) (action type : String) (applied : Bool) : Trace :=
  t.record .importAction (action ++ " import " ++ type)
    [("action", .text action), ("type", .text type), ("applied", .flag applied)]

/-- Records a failure. -/
def warning (t : Trace) (message : String) : Trace :=
  t.record .warning message [("level", .text "warning")]

/-- Records a decision that changed nothing. -/
def inspection (t : Trace) (subject outcome : String) (detail : String := "") : Trace :=
  t.record .inspection ("Inspecting '" ++ subject ++ "'")
    [("outcome", .text outcome), ("detail", .text detail)]

/-- Recording appends one event. -/
@[simp] theorem events_record (t : Trace) (kind : EventKind) (description : String)
    (details : List (String × Detail)) :
    (t.record kind description details).events =
      t.events.push ⟨kind, description, t.openPhases.head?, details⟩ := rfl

/-- Closing a phase when none is open changes nothing. -/
theorem finish_of_none_open {t : Trace} (h : t.openPhases = []) : t.finish = t := by
  simp [finish, h]

end Trace

end SourceMigration
