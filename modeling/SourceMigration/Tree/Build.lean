import SourceMigration.Tree.Node

/-!
# SourceMigration — building and taking apart units

Names and imports that were not read from a text, and the parts of a unit.
-/

namespace SourceMigration

namespace Node

/-- The tokens of a dotted name: identifiers with dots between them. -/
def nameTokens (leading : String) : List String → List Token
  | [] => []
  | [part] => [Token.identifier part leading]
  | part :: parts => Token.identifier part leading :: Token.operator "." :: nameTokens "" parts

/-- The name with the given dotted spelling, without trivia but before its first part. -/
def ofDotted (dotted : String) (leading : String := "") (type : Option TypeName := none) : Node :=
  .branch (.name type)
    ((nameTokens leading (Text.splitDots dotted)).map fun t => (.tokens, .token t))

/-- A single-type import. -/
def importOf (t : TypeName) (leading : String := "") : Node :=
  .branch .importDeclaration
    [(.keyword, .token (Token.keyword "import" leading)),
      (.name, ofDotted t.text " " (some t)),
      (.semicolon, .token (Token.operator ";"))]

end Node

/-- The parts of a unit. -/
structure UnitParts where
  package : Option Node
  imports : List Node
  types : List Node
  endMarker : List Node

/-- The parts of a unit. -/
def Node.unitParts (unit : Node) : UnitParts :=
  ⟨unit.field? .package, unit.field .imports, unit.field .types, unit.field .endMarker⟩

/-- The unit made of some parts. -/
def UnitParts.toUnit (p : UnitParts) : Node :=
  .branch .unit
    (p.package.toList.map (fun n => (.package, n)) ++ p.imports.map (fun n => (.imports, n)) ++
      p.types.map (fun n => (.types, n)) ++ p.endMarker.map (fun n => (.endMarker, n)))

/-- The names outside the package and the imports of a unit, in order. -/
def Node.bodyNames (unit : Node) : List Node :=
  (unit.field .types).flatMap fun m => m.walk.filter fun n =>
    match n with
    | .branch (.name _) _ => true
    | _ => false

/-- The type that a name, or the name in a type reference, denotes. -/
def Node.denoted? : Node → Option TypeName
  | .branch (.name t) _ => t
  | .branch .parameterized cs =>
    match (Node.branch .parameterized cs).field? .base with
    | some (.branch (.name t) _) => t
    | _ => none
  | _ => none

end SourceMigration
