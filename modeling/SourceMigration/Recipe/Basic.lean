import SourceMigration.Editing.MemberTable
import SourceMigration.Editing.Supertype

/-!
# SourceMigration — recipes

A recipe moves classes from one supertype to another. Its gate is a type that a unit must
mention to be looked at; the primary visit then goes through all type declarations, the inner
ones first. A class whose supertype is known is edited by the member table, and if it directly
extends the legacy type, its supertype is exchanged as well, which queues companion passes.
The passes run after the visit, in the order of the queue.
-/

namespace SourceMigration

/-- One migration. -/
structure Recipe where
  name : String
  title : String
  description : String
  /-- The type that a unit must mention. -/
  gate : TypeName
  /-- The supertype that is exchanged. -/
  legacy : TypeName
  change : SupertypeChange
  table : MemberTable := {}
  deriving Repr, Inhabited

namespace Recipe

/-- The type declaration after the edits of its own, if its supertype is known. -/
def editClass [TreeSitter] (r : Recipe) (decl : Node) : EditM Replacement := do
  if (Supertype.denoted? decl).isNone then pure .same
  else
    let moved ←
      match Supertype.match? r.legacy decl with
      | some clause => r.change.apply decl clause
      | none => pure decl
    match moved.field? .body with
    | none => pure (.node moved)
    | some body =>
      let w ← get
      let (body, _, trace) := r.table.apply body w.journal.trace
      set { w with journal := { w.journal with trace } }
      pure (.node (moved.setField .body body))

/-- Makes the primary visit of a unit. It never puts several nodes in the place of one, so
a fault of the revision leaves the unit as it is. -/
def visitUnit [TreeSitter] (r : Recipe) (unit : Node) : EditM Revised := do
  match ← ((Revision.ofTypes r.editClass).apply unit).run with
  | .ok result => pure result
  | .error _ => pure ⟨unit, false⟩

/-- Runs a recipe on an attributed unit: gate, primary visit, passes. -/
def run [TreeSitter] (r : Recipe) (unit : Node) (j : Journal) : Except EditFault Revised × Journal :=
  if !Gate.applies r.gate unit then
    (.ok ⟨unit, false⟩,
      j.log (·.inspection (Gate.describe r.gate) "skipped" "unit does not reference the type"))
  else
    let j := j.log (·.start "Primary Visit" r.name)
    -- Every run has a queue of its own.
    let (visited, w) := (r.visitUnit unit).run { journal := j }
    let j := w.journal.log Trace.finish
    match visited with
    -- The queue is dropped with the visit that failed.
    | .error why => (.error why, j)
    | .ok visited =>
      let count := toString w.queue.passes.length
      let j := j.remark ["Recipe " ++ r.name ++ " scheduled " ++ count ++ " deferred passes"]
      let j := j.log (·.start "Deferred Passes" (count ++ " scheduled"))
      match w.queue.drain visited.node j with
      | .error why => (.error (.queue why), j.log Trace.finish)
      | .ok (_, result, j) =>
        (.ok ⟨result.node, visited.changed || result.changed⟩, j.log Trace.finish)

end Recipe

end SourceMigration
