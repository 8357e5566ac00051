import SourceMigration.Editing.Pass

/-!
# SourceMigration — the queue of deferred passes

Passes wait in the order in which they were first scheduled, none of them twice. A queue is
drained once; after that it takes no more passes.
-/

namespace SourceMigration

/-- The passes of one run over one unit. -/
structure Queue where
  passes : List Pass := []
  drained : Bool := false
  deriving Inhabited

/-- What a drained queue refuses to do. -/
inductive QueueFault where
  | scheduleAfterDrain (description : String)
  | secondDrain
  deriving DecidableEq, Repr

/-- The wording of a fault. -/
def QueueFault.message : QueueFault → String
  | .scheduleAfterDrain description =>
    "Cannot schedule '" ++ description ++ "' on a drained queue"
  | .secondDrain => "Deferred pass queue has already been drained"

namespace Queue

/-- Appends a pass unless an equal one waits already; tells whether it was appended. -/
def schedule (q : Queue) (p : Pass) : Except QueueFault (Queue × Bool) :=
  if q.drained then .error (.scheduleAfterDrain p.describe)
  else if q.passes.contains p then .ok (q, false)
  else .ok ({ q with passes := q.passes ++ [p] }, true)

/-- Runs passes one after another, and records whether each changed the unit. -/
def runAll : List Pass → Revised → Journal → Revised × Journal
  | [], unit, j => (unit, j)
  | p :: ps, unit, j =>
    let j := j.remark ["Running deferred pass: " ++ p.describe]
    let (result, j) := p.run unit.node j
    let j := j.log (·.executed p.describe result.changed)
    -- Each pass works on what the one before it left.
    runAll ps ⟨result.node, unit.changed || result.changed⟩ j

/-- Runs the passes that wait, in order, and closes the queue. -/
def drain (q : Queue) (unit : Node) (j : Journal) :
    Except QueueFault (Queue × Revised × Journal) :=
  if q.drained then .error .secondDrain
  else
    let (result, j) := runAll q.passes ⟨unit, false⟩ j
    .ok ({ q with drained := true }, result, j)

end Queue

end SourceMigration
