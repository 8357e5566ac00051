import SourceMigration.Tree.Node

/-!
# SourceMigration — paths

A path leads from a node to one below it: by the name of a field that holds one node, or by the
name of a field that holds any number and a position among them.
-/

namespace SourceMigration

/-- One step of a path. -/
inductive PathStep where
  | field (title : String)
  | index (i : Nat)
  deriving DecidableEq, Repr

/-- Where a path leads nowhere. -/
inductive PathFault where
  /-- The node has no such field, or nothing stands there. -/
  | absent
  /-- There are fewer nodes than the position asks for. -/
  | outOfRange
  /-- A position is asked for where only one node can stand. -/
  | notMany
  deriving DecidableEq, Repr

namespace Node

/-- The field of a kind of node under its name. -/
def fieldTitled? (k : NodeKind) (title : String) : Option Field :=
  (k.shape.map Prod.fst).find? (·.title == title)

/-- The first step of a path from a node: the field, the position in it, and the node there. -/
def step? (n : Node) : List PathStep → Except PathFault (Field × Nat × Node × List PathStep)
  | .field title :: rest =>
    match n with
    | .token _ => .error .absent
    | .branch k _ =>
      match fieldTitled? k title with
      | none => .error .absent
      | some f =>
        match k.isMany f, rest with
        | false, rest =>
          match n.field? f with
          | some child => .ok (f, 0, child, rest)
          | none => .error .absent
        | true, .index i :: rest =>
          match (n.field f)[i]? with
          | some child => .ok (f, i, child, rest)
          | none => .error .outOfRange
        | true, _ => .error .absent
  | .index _ :: _ => .error .notMany
  | [] => .error .absent

/-- Replaces the child at a position of a field. -/
def setAt (f : Field) (new : Node) : Nat → List (Field × Node) → List (Field × Node)
  | _, [] => []
  | i, (g, n) :: cs =>
    if g = f then
      match i with
      | 0 => (g, new) :: cs
      | i + 1 => (g, n) :: setAt f new i cs
    else (g, n) :: setAt f new i cs

/-- Replaces the node to which a path leads by what `f` makes of it. Every step takes at least one
element of the path, so its length is fuel enough. -/
def modifyAlong (f : Node → Except PathFault Node) : Nat → List PathStep → Node → Except PathFault Node
  | _, [], n => f n
  | 0, _, _ => .error .absent
  | fuel + 1, path, n => do
    let (field, i, child, rest) ← n.step? path
    let new ← modifyAlong f fuel rest child
    match n with
    | .token t => pure (.token t)
    | .branch k cs => pure (.branch k (setAt field new i cs))

/-- Replaces the node to which a path leads by what `f` makes of it. -/
def modifyAt (n : Node) (path : List PathStep) (f : Node → Except PathFault Node) :
    Except PathFault Node :=
  modifyAlong f path.length path n

/-- Follows a path. -/
def followFrom : Nat → List PathStep → Node → Except PathFault Node
  | _, [], n => .ok n
  | 0, _, _ => .error .absent
  | fuel + 1, path, n => do
    let (_, _, child, rest) ← n.step? path
    followFrom fuel rest child

/-- The node to which a path leads. -/
def follow (n : Node) (path : List PathStep) : Except PathFault Node :=
  followFrom path.length path n

end Node

end SourceMigration
