import SourceMigration.Recipe.Registry
import SourceMigration.StandIn.Console.Library
import SourceMigration.StandIn.Java.Library
import SourceMigration.StandIn.Pydantic
import SourceMigration.Tree.Path
import SourceMigration.Typing.Attribution

/-!
# SourceMigration — the workbench

One unit to which single edits are applied one at a time: what a recipe does in one go can be
tried step by step, with a look at the unit, the queue and the trace in between. An edit that
fails leaves the unit as it was; what it queued and recorded before it failed stays.

Texts are parsed here, and wherever this module is used, with the stand-ins for the libraries.
-/

namespace SourceMigration

attribute [instance] StandIn.treeSitter StandIn.pydantic StandIn.rich

/-- A unit under work. -/
structure Workbench where
  unit : Node
  classpath : Classpath
  registry : Registry := {}
  workshop : Workshop := {}
  deriving Inhabited

/-- What can be done on a workbench. -/
inductive WorkCommand where
  /-- Attribute the unit. -/
  | attribute
  /-- Let every reference spelled `name` denote a type. -/
  | retype (name : String) (type : TypeName)
  | addImport (type : TypeName)
  | removeImport (type : TypeName)
  /-- Ask whether a type is referred to by its simple name. -/
  | isReferenced (type : TypeName)
  /-- Run a pass at once. -/
  | run (pass : Pass)
  | schedule (pass : Pass)
  | drain
  /-- Look at the queue. -/
  | queue
  | newQueue
  /-- Ask whether the gate of a type lets the unit in. -/
  | gate (type : TypeName)
  /-- Ask which type declarations extend a type directly. -/
  | extending (type : TypeName)
  /-- Apply a member table to the type declarations, or to those of one name. -/
  | members (table : MemberTable) (only : Option String)
  /-- Exchange the supertype of the type declarations that extend a type directly. -/
  | exchange (type : TypeName) (change : SupertypeChange)
  /-- Run a recipe. -/
  | drive (recipe : String)
  /-- Put other trivia before a node. -/
  | lead (path : List PathStep) (leading : String)
  /-- Give a node another label. -/
  | relabel (path : List PathStep) (new : String)
  /-- Look at a node. -/
  | look (path : List PathStep)
  /-- Print the unit and parse it again, which loses all attribution. -/
  | reparse
  deriving Repr

/-- Why a command fails. -/
inductive WorkFault where
  | edit (why : EditFault)
  | unknownRecipe (message : String)
  | path (why : PathFault)
  | broken (why : Node.Defect)
  /-- The node has no label to change. -/
  | unlabelled
  | refused (why : Refusal)
  deriving DecidableEq, Repr

/-- A type declaration that extends the type asked for. -/
structure Extending where
  name : String
  /-- The text of the supertype clause. -/
  clause : String
  memberCount : Nat
  deriving DecidableEq, Repr

/-- What a command answers. -/
inductive WorkAnswer where
  | nothing
  | flag (b : Bool)
  | queue (q : Queue)
  | gate (applies : Bool) (description : String)
  /-- An entry for every type declaration. -/
  | extending (entries : List (Option Extending))
  | node (n : Node)

/-- What came of a command: the workbench after it, whether the unit was built anew, and the answer. -/
structure WorkResult where
  bench : Workbench
  changed : Bool := false
  answer : Except WorkFault WorkAnswer := .ok .nothing

namespace Workbench

/-- A type declaration as seen by the match with a type. -/
def extending? (t : TypeName) (decl : Node) : Option Extending :=
  (Supertype.match? t decl).map fun clause => ⟨decl.declaredName, clause.text, decl.members.length⟩

/-- The type declarations of a unit, each before those within it. -/
def typeDeclarations (unit : Node) : List Node :=
  unit.walk.filter fun n =>
    match n with
    | .branch .typeDeclaration _ => true
    | _ => false

/-- The reference with the given type, if it is spelled so. -/
def retyped? (name : String) (t : TypeName) (n : Node) : Option Node :=
  match n with
  | .branch (.name _) cs => if n.dottedName = name then some (.branch (.name (some t)) cs) else none
  | _ => none

/-- The type declaration after a member table, if it is to be applied to it. -/
def applyTable (table : MemberTable) (only : Option String) (decl : Node) : EditM Replacement := do
  if only.any (· != decl.declaredName) then pure .same
  else
    match decl.field? .body with
    | none => pure .same
    | some body =>
      let w ← get
      let (body, changed, trace) := table.apply body w.journal.trace
      set { w with journal := { w.journal with trace } }
      if changed then pure (.node (decl.setField .body body)) else pure .same

/-- The type declaration with its supertype exchanged, if it extends the type. -/
def exchangeIn (t : TypeName) (change : SupertypeChange) (decl : Node) : EditM Replacement := do
  match Supertype.match? t decl with
  | some clause => return .node (← change.apply decl clause)
  | none => pure .same

/-- The node with other trivia before it. -/
def leadNode (leading : String) (n : Node) : Except WorkFault Node :=
  match n.frontDefect? with
  | some why => .error (.broken why)
  | none => .ok (n.withLeading leading)

/-- The node with another label. -/
def relabelNode (new : String) (n : Node) : Except WorkFault Node :=
  match n.relabelled? new with
  | some n => .ok n
  | none => .error .unlabelled

/-- A workbench with another unit. -/
def withUnit (b : Workbench) (unit : Node) : Workbench := { b with unit }

/-- A workbench with another journal. -/
def withJournal (b : Workbench) (journal : Journal) : Workbench :=
  { b with workshop := { b.workshop with journal } }

/-- The result of a command that changes nothing and answers. -/
def answering (b : Workbench) (a : WorkAnswer) : WorkResult := ⟨b, false, .ok a⟩

/-- The result of a command that fails. -/
def failing (b : Workbench) (why : WorkFault) : WorkResult := ⟨b, false, .error why⟩

/-- The result of a command that gives the unit and the journal after it. -/
def revised (b : Workbench) (result : Revised) (j : Journal) : WorkResult :=
  ⟨(b.withUnit result.node).withJournal j, result.changed, .ok .nothing⟩

/-- Revises the type declarations of the unit. -/
def editTypes (b : Workbench) (f : Node → EditM Replacement) : WorkResult :=
  let (outcome, workshop) := (((Revision.ofTypes f).apply b.unit).run).run b.workshop
  let after := { b with workshop }
  match outcome with
  | .ok (.ok result) => ⟨after.withUnit result.node, result.changed, .ok .nothing⟩
  | .ok (.error _) => ⟨after, false, .ok .nothing⟩
  | .error why => after.failing (.edit why)

/-- Replaces the node at a path. -/
def editAt (b : Workbench) (path : List PathStep) (f : Node → Except WorkFault Node) : WorkResult :=
  match b.unit.follow path with
  | .error why => b.failing (.path why)
  | .ok n =>
    match f n with
    | .error why => b.failing why
    | .ok new =>
      match b.unit.modifyAt path fun _ => .ok new with
      | .error why => b.failing (.path why)
      | .ok unit => ⟨b.withUnit unit, true, .ok .nothing⟩

/-- Carries out a command. -/
def perform (b : Workbench) : WorkCommand → WorkResult
  | .attribute =>
    let attributed := Attribution.ofUnit b.classpath b.unit
    ⟨b.withUnit attributed.value, attributed.changed, .ok .nothing⟩
  | .retype name t =>
    let (unit, count) := b.unit.replaceAll (fun _ => false) (retyped? name t)
    ⟨b.withUnit unit, count != 0, .ok .nothing⟩
  | .addImport t =>
    let edit := Imports.add b.unit t
    ⟨b.withUnit edit.unit, edit.changed, .ok .nothing⟩
  | .removeImport t =>
    let edit := Imports.remove b.unit t
    ⟨b.withUnit edit.unit, edit.changed, .ok .nothing⟩
  | .isReferenced t => b.answering (.flag (Imports.isReferenced b.unit t))
  | .run pass =>
    let (result, j) := pass.run b.unit b.workshop.journal
    b.revised result j
  | .schedule pass =>
    match b.workshop.queue.schedule pass with
    | .error why => b.failing (.edit (.queue why))
    | .ok (queue, added) =>
      { b with workshop := { b.workshop with queue } }.answering (.flag added)
  | .drain =>
    match b.workshop.queue.drain b.unit b.workshop.journal with
    | .error why => b.failing (.edit (.queue why))
    | .ok (queue, result, journal) =>
      ⟨{ b with unit := result.node, workshop := { queue, journal } }, result.changed, .ok .nothing⟩
  | .queue => b.answering (.queue b.workshop.queue)
  | .newQueue => ⟨{ b with workshop := { b.workshop with queue := {} } }, false, .ok .nothing⟩
  | .gate t => b.answering (.gate (Gate.applies t b.unit) (Gate.describe t))
  | .extending t => b.answering (.extending ((typeDeclarations b.unit).map (extending? t)))
  | .members table only => b.editTypes (applyTable table only)
  | .exchange t change => b.editTypes (exchangeIn t change)
  | .drive recipe =>
    match b.registry.find? recipe with
    | none => b.failing (.unknownRecipe (b.registry.unknown recipe))
    | some r =>
      match r.run b.unit b.workshop.journal with
      | (.ok result, j) => b.revised result j
      | (.error why, j) => (b.withJournal j).failing (.edit why)
  | .lead path leading => b.editAt path (leadNode leading)
  | .relabel path new => b.editAt path (relabelNode new)
  | .look path =>
    match b.unit.follow path with
    | .ok n => b.answering (.node n)
    | .error why => b.failing (.path why)
  | .reparse =>
    match Parsing.parse b.unit.text with
    | .ok unit => ⟨b.withUnit unit, true, .ok .nothing⟩
    | .error why => b.failing (.refused why)

end Workbench

end SourceMigration
