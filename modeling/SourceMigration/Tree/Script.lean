import SourceMigration.Tree.Label
import SourceMigration.Tree.Revision

/-!
# SourceMigration — scripted revisions

A revision given by rules: before or after the children of a node of some kind, possibly only
of one label, something is done. Of the rules for one kind and one moment the first that fits
decides. Every node for whose kind and moment there is a rule is recorded, whether a rule fits
or not, so that the record tells the order of the visit.
-/

namespace SourceMigration

/-- What is done before the children of a node. -/
inductive Entry where
  | skip
  | descend
  deriving DecidableEq, Repr

/-- What is done with a node after its children. -/
inductive Exit where
  | keep
  | remove
  /-- The node once for each of these trivia, with the trivia before it. -/
  | copies (leadings : List String)
  | lead (leading : String)
  | relabel (new : String)
  deriving DecidableEq, Repr

/-- A rule for nodes of a kind, and of a label if one is given. -/
structure ScriptRule (Action : Type) where
  title : String
  label : Option String
  action : Action

/-- The rules for both moments. -/
structure Script where
  entries : List (ScriptRule Entry)
  exits : List (ScriptRule Exit)

/-- One line of the record. -/
inductive ScriptRecord where
  | entered (title : String) (label parent : Option String)
  | left (title : String) (label : Option String) (changed : Bool)
  deriving DecidableEq, Repr

/-- Why a script stops. -/
inductive ScriptFault where
  | revision (why : RevisionFault)
  | broken (why : Node.Defect)
  deriving DecidableEq, Repr

/-- Scripts run against a record that outlives a fault. -/
abbrev ScriptM := ExceptT Node.Defect (StateM (List ScriptRecord))

namespace Script

/-- The first rule that fits a label. -/
def firstFit {Action : Type} (rules : List (ScriptRule Action)) (label : Option String) :
    Option Action :=
  (rules.find? fun r => r.label.isNone || r.label == label).map ScriptRule.action

/-- The label of a node in the record. -/
def labelOf (n : Node) : ScriptM (Option String) :=
  match n.labelDefect? with
  | some why => throw why
  | none => pure n.label

/-- Adds a line to the record. -/
def note (r : ScriptRecord) : ScriptM Unit := modify (· ++ [r])

/-- The node with other trivia before it, if there is a first token to put them before. -/
def lead (n : Node) (leading : String) : ScriptM Node :=
  match n.frontDefect? with
  | some why => throw why
  | none => pure (n.withLeading leading)

/-- What takes the place of a node. -/
def replacement (updated : Node) : Exit → ScriptM Replacement
  | .keep => pure .same
  | .remove => pure .nothing
  | .copies leadings => do return .several (← leadings.mapM (lead updated))
  | .lead leading => do return .node (← lead updated leading)
  | .relabel new =>
    match updated.relabelled? new with
    | some n => pure (.node n)
    | none => throw .absentChild

/-- The revision that a script stands for. -/
def revision (s : Script) : Revision ScriptM where
  visit := fun parent n => do
    match s.entries.filter (·.title == n.title) with
    | [] => pure true
    | rules =>
      let label ← labelOf n
      note (.entered n.title label (parent.map Node.title))
      pure (firstFit rules label != some .skip)
  leave := fun _ before updated changed => do
    match s.exits.filter (·.title == before.title) with
    | [] => pure .same
    | rules =>
      note (.left updated.title (← labelOf updated) changed)
      replacement updated ((firstFit rules (← labelOf before)).getD .keep)

/-- Runs a script on a tree; what comes out must still be printable. -/
def run (s : Script) (root : Node) : Except ScriptFault Revised × List ScriptRecord :=
  let (outcome, record) := ((s.revision.apply root).run).run []
  match outcome with
  | .error why => (.error (.broken why), record)
  | .ok (.error why) => (.error (.revision why), record)
  | .ok (.ok result) =>
    if result.node.complete then (.ok result, record) else (.error (.broken .absentChild), record)

end Script

end SourceMigration
