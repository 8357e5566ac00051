import SourceMigration.Tree.Node

/-!
# SourceMigration — revising trees

A revision visits a tree depth first. Before the children of a node it decides whether to
descend, and after them it gives the replacement of the node: the node as it is by then,
another node, nothing, or several nodes. Only a field that holds any number of children can
take several in the place of one, and the root must stay one node.

A node none of whose children were replaced and that is not replaced itself is reported as
kept, so that the outcome tells whether anything happened at all. Decisions and replacements
may have effects in any monad; they take place in the order of the visit.
-/

namespace SourceMigration

/-- What takes the place of a node, seen after its children. -/
inductive Replacement where
  /-- The node as it is after its children were revised. -/
  | same
  | node (n : Node)
  | nothing
  | several (ns : List Node)

/-- A revision with effects in `m`; `parent` is the node that held the visited one before. -/
structure Revision (m : Type → Type) where
  /-- Whether to visit the children. -/
  visit : (parent : Option Node) → Node → m Bool
  /-- The replacement for `updated`, which is `before` with revised children; `changed` tells
  whether one of them was replaced. -/
  leave : (parent : Option Node) → (before updated : Node) → (changed : Bool) → m Replacement

/-- Why a revision fails. -/
inductive RevisionFault where
  /-- The root was removed or replaced by several nodes. -/
  | rootNotSingle
  /-- Several nodes were to take the place of one that stands alone in its field. -/
  | fieldNotMany (field : Field) (kind : NodeKind)
  deriving DecidableEq, Repr

/-- The wording of a fault. -/
def RevisionFault.message : RevisionFault → String
  | .rootNotSingle => "The root node cannot be removed or flattened"
  | .fieldNotMany field kind =>
    "Cannot flatten into single-node field '" ++ field.title ++ "' of " ++ kind.title

/-- A tree after a revision, and whether anything in it was replaced. -/
structure Revised where
  node : Node
  changed : Bool

namespace Revision

variable {m : Type → Type} [Monad m]

/-- What became of a node. -/
inductive Outcome where
  | kept
  | replaced (n : Node)
  | removed
  | spread (ns : List Node)

/-- The outcome of a replacement for a node that is `updated` after its children. -/
def Outcome.ofReplacement (updated : Node) (changed : Bool) : Replacement → Outcome
  | .same => if changed then .replaced updated else .kept
  | .node n => .replaced n
  | .nothing => .removed
  | .several ns => .spread ns

mutual

/-- Visits a node. -/
def run (r : Revision m) (parent : Option Node) : Node → ExceptT RevisionFault m Outcome
  | .token t => do
    let _ ← (r.visit parent (.token t) : m Bool)
    let replacement ← (r.leave parent (.token t) (.token t) false : m Replacement)
    pure (.ofReplacement (.token t) false replacement)
  | .branch k cs => do
    let n : Node := .branch k cs
    let descend ← (r.visit parent n : m Bool)
    -- The children come first: a node is left with what became of them.
    let (updated, changed) ← if descend then runChildren r k n cs else pure (cs, false)
    let replacement ← (r.leave parent n (.branch k updated) changed : m Replacement)
    pure (.ofReplacement (.branch k updated) changed replacement)

/-- Visits each child of a node. -/
def runChildren (r : Revision m) (k : NodeKind) (parent : Node) :
    List (Field × Node) → ExceptT RevisionFault m (List (Field × Node) × Bool)
  | [] => pure ([], false)
  | (f, n) :: cs => do
    let outcome ← run r (some parent) n
    let front : List (Field × Node) × Bool ←
      match outcome with
      | .kept => pure ([(f, n)], false)
      | .replaced n => pure ([(f, n)], true)
      | .removed => pure ([], true)
      | .spread ns =>
        if k.isMany f then pure (ns.map fun n => (f, n), true)
        -- Removing is always possible; only several nodes need a field for many.
        else throw (.fieldNotMany f k)
    let (rest, changed) ← runChildren r k parent cs
    pure (front.1 ++ rest, front.2 || changed)

end

/-- Revises a whole tree. -/
def apply (r : Revision m) (root : Node) : ExceptT RevisionFault m Revised := do
  match ← run r none root with
  | .kept => pure ⟨root, false⟩
  | .replaced n => pure ⟨n, true⟩
  | .removed | .spread _ => throw .rootNotSingle

/-- A revision that replaces nothing. -/
def idle : Revision m := ⟨fun _ _ => pure true, fun _ _ _ _ => pure .same⟩

/-- A revision that replaces type declarations, the inner ones before those around them. -/
def ofTypes (f : Node → m Replacement) : Revision m where
  visit := fun _ _ => pure true
  leave := fun _ _ updated _ =>
    match updated with
    | .branch .typeDeclaration _ => f updated
    | _ => pure .same

end Revision

/-! ## Replacing without effects -/

namespace Node

mutual

/-- Replaces every outermost node for which `f` gives another, outside the kinds that `skip` names.
The number counts the replacements. -/
def replaceAll (skip : NodeKind → Bool) (f : Node → Option Node) : Node → Node × Nat
  | .token t =>
    match f (.token t) with
    | some n => (n, 1)
    | none => (.token t, 0)
  | .branch k cs =>
    match f (.branch k cs) with
    | some n => (n, 1)
    | none =>
      if skip k then (.branch k cs, 0)
      else
        let (cs, count) := replaceAllIn skip f cs
        (.branch k cs, count)

/-- The same in each child. -/
def replaceAllIn (skip : NodeKind → Bool) (f : Node → Option Node) :
    List (Field × Node) → List (Field × Node) × Nat
  | [] => ([], 0)
  | (g, n) :: cs =>
    let (n, count) := replaceAll skip f n
    let (cs, more) := replaceAllIn skip f cs
    ((g, n) :: cs, count + more)

end

end Node

end SourceMigration
