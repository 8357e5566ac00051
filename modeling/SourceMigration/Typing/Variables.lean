import SourceMigration.Tree.Node

/-!
# SourceMigration — variables declared in a run

A declaration of a variable shows in a flat run as a type, a simple name, and a sign that
ends a declarator. Fields, locals, parameters, loop variables and variables of patterns
all look so; an array with its dimensions after the name does not.
-/

namespace SourceMigration

/-- Whether an element is the sign `text`. -/
def Node.isToken (n : Node) (text : String) : Bool :=
  match n with
  | .token t => t.spells text
  | .branch _ _ => false

/-- The name of a type in a run: a name itself, or the name before type arguments. -/
def Node.typeHead? (n : Node) : Option Node :=
  match n with
  | .branch (.name _) _ => some n
  | .branch .parameterized _ => n.field? .base
  | _ => none

/-- A name of one part, if the node is one. -/
def Node.simpleNameOf? (n : Node) : Option String :=
  match n with
  | .branch (.name _) _ =>
    match n.nameParts with
    | [s] => some s
    | _ => none
  | _ => none

namespace Variables

/-- The signs that end the declarator of a variable. -/
def declaratorEnds : List String := ["=", ";", ",", ")", ":"]

/-- Whether an element ends a declarator. -/
def endsDeclarator : Node → Bool
  | .token t => declaratorEnds.contains t.text
  | .branch _ _ => false

/-- The variables that a run declares after `previous`, with the types that `resolve` finds. A
variable whose type is not found is left out. -/
def declaredFrom (resolve : Node → Option TypeName) :
    Option Node → List Node → List (String × TypeName)
  | previous, type :: next :: rest =>
    let later := declaredFrom resolve (some type) (next :: rest)
    let found : Option (String × TypeName) := do
      let head ← type.typeHead?
      -- After a point stands a member, not a type.
      if previous.any (·.isToken ".") then none
      let name ← next.simpleNameOf?
      -- At the end of the run nothing needs to follow.
      if rest.head?.any fun e => !endsDeclarator e then none
      let t ← resolve head
      pure (name, t)
    found.toList ++ later
  | _, _ => []

/-- The variables that a run of elements declares, in order. -/
def declared (resolve : Node → Option TypeName) (elements : List Node) : List (String × TypeName) :=
  declaredFrom resolve none elements

/-- The type of a variable: what its last declaration says. -/
def typeOf? (declared : List (String × TypeName)) (name : String) : Option TypeName :=
  declared.reverse.lookup name

end Variables

end SourceMigration
