import SourceMigration.Parsing.Parser
import SourceMigration.StandIn.Java.Diagnosis

/-!
# SourceMigration — a library that stands in for the parser

The program asks a parser library for concrete syntax trees. That library is no part of this project;
what stands in for it here reads the language well enough to run the program. Nothing that is proved
depends on it: the theory takes the library as it comes, with laws where it relies on some.

A reading knows less of the syntax than a concrete tree does, so some nodes are put in whose types say
no more than the conversion asks.
-/

namespace SourceMigration.StandIn

/-- Drawing a tree goes through the text and counts nodes. -/
structure Pen where
  offset : Nat := 0
  count : Nat := 0

abbrev Draw := StateM Pen

/-- What is filed under a field, as it is drawn. -/
abbrev Drawn := Field × Concrete

/-- A number for one more node. -/
def newId : Draw Nat := modifyGet fun p => (p.count, { p with count := p.count + 1 })

/-- A node for a token. -/
def drawLeaf (type : String) (isNamed : Bool) (t : Token) : Draw Concrete := do
  let id ← newId
  modifyGet fun p =>
    let start := p.offset + t.leading.utf8ByteSize
    let stop := start + t.text.utf8ByteSize
    (.node ⟨type, id, isNamed, false, start, stop, t.line - 1, t.column - 1⟩ [], { p with offset := stop })

/-- A node of a rule. -/
def drawInner (type : String) (children : List (Option String × Concrete)) : Draw Concrete := do
  let id ← newId
  let first := (children.head?.map (·.2.info)).getD ⟨type, id, true, false, 0, 0, 0, 0⟩
  let stop := (children.getLast?.map (·.2.info.stop)).getD 0
  return .node ⟨type, id, true, false, first.start, stop, first.row, first.column⟩ children

/-- Some nodes as children without fields. -/
def unnamed (ns : List Concrete) : List (Option String × Concrete) := ns.map fun n => (none, n)

/-- A node of a rule, where there is something to put into it. -/
def drawSome (type : String) (field : Option String) (ns : List Concrete) :
    Draw (List (Option String × Concrete)) := do
  if ns.isEmpty then return []
  else return [(field, ← drawInner type (unnamed ns))]

/-- The node for a token by its kind. -/
def drawToken (f : Field) (t : Token) : Draw Concrete :=
  match t.kind with
  | .identifier => drawLeaf "identifier" true t
  | .string | .textBlock => drawLeaf "string_literal" true t
  | .character => drawLeaf "character_literal" true t
  | .number => drawLeaf "decimal_integer_literal" true t
  | _ => if f = .wildcard && t.text = "*" then drawLeaf "asterisk" true t else drawLeaf t.text false t

/-- A name or a name with arguments where a type stands. -/
def asType : Concrete → Concrete
  | .node i [(_, .node j [])] =>
    if i.type = "scoped_identifier" then .node { j with type := "type_identifier" } []
    else .node i [(none, .node j [])]
  | .node i cs =>
    .node (if i.type = "scoped_identifier" then { i with type := "scoped_type_identifier" } else i) cs

/-- The rule of a type that is no plain class type, told by its leaves. -/
def typeRule (spellings : List String) : String :=
  match spellings, spellings.getLast? with
  | ["boolean"], _ => "boolean_type"
  | ["void"], _ => "void_type"
  | ["float"], _ | ["double"], _ => "floating_point_type"
  | [_], _ => "integral_type"
  | _, some "]" => "array_type"
  | _, some ">" => "generic_type"
  | _, _ => "scoped_type_identifier"

/-- The node for a type. -/
def drawType (ns : List Concrete) : Draw Concrete :=
  match ns with
  | [.node i cs] =>
    if i.type = "scoped_identifier" || i.type = "generic_type" then return asType (.node i cs)
    else drawInner (typeRule [i.type]) (unnamed ns)
  | _ => drawInner (typeRule (ns.map Concrete.type)) (unnamed ns)

/-- How many elements of a member come before its type, and how many are the type, if the member declares
variables. -/
def fieldSplit? (ts : List Token) : Option (Nat × Nat) := do
  let read (p : Grammar.P) (ts : List Token) := p.read? Grammar.rules (fuelFor ts) ts
  let (modifiers, rest) ← read Grammar.modifiers ts
  let (type, rest) ← read Grammar.bareType rest
  let (_, rest) ← read Grammar.simpleName rest
  guard (rest.head?.any fun t => [";", ",", "=", "["].contains t.text)
  return (modifiers.length, type.length)

/-- The node for a member that is a run of elements. -/
def drawMember (ts : List Token) (ns : List Concrete) : Draw Concrete :=
  match fieldSplit? ts with
  | none => drawInner "statement" (unnamed ns)
  | some (m, t) => do
    let modifiers ← drawSome "modifiers" none (ns.take m)
    let type ← drawType ((ns.drop m).take t)
    drawInner "field_declaration" (modifiers ++ (some "type", type) :: unnamed (ns.drop (m + t)))

/-- The rule of a type declaration by the word it is declared with. -/
def declarationRule (word : String) : String :=
  if word = "@interface" then "annotation_type_declaration" else word ++ "_declaration"

/-- The node for an inner node whose children have been drawn. -/
def assemble (k : NodeKind) (cs : List Drawn) : Draw Concrete :=
  let filed (f : Field) : List Concrete := (cs.filter (·.1 == f)).map Prod.snd
  let named (f : Field) (field : String) : List (Option String × Concrete) :=
    (filed f).map fun n => (some field, n)
  let all := unnamed (cs.map Prod.snd)
  match k with
  | .name _ => drawInner "scoped_identifier" all
  | .parameterized => drawInner "generic_type" (unnamed ((filed .base).map asType ++ filed .arguments))
  | .call _ => drawInner "method_invocation" (named .callee "name")
  | .statement => drawInner "statement" all
  | .block => drawInner "block" all
  | .extendsClause => drawInner "superclass" (unnamed (filed .keyword ++ (filed .supertype).map asType))
  | .method => do
    let parameters ← drawSome "formal_parameters" (some "parameters") (filed .parameters)
    drawInner "method_declaration"
      (unnamed (filed .modifiers) ++ named .name "name" ++ parameters ++ unnamed (filed .tail) ++
        named .body "body" ++ unnamed (filed .terminator))
  | .classBody => drawInner "class_body" all
  | .typeDeclaration => do
    let modifiers ← drawSome "modifiers" none (filed .modifiers)
    let header ← drawSome "type_parameters" none (filed .header)
    let tail ← drawSome "super_interfaces" none (filed .tail)
    drawInner (declarationRule (((filed .kind).head?.map Concrete.type).getD ""))
      (modifiers ++ unnamed (filed .kind) ++ named .name "name" ++ header ++ unnamed (filed .superclass) ++
        tail ++ named .body "body")
  | .importDeclaration => drawInner "import_declaration" all
  | .packageDeclaration => drawInner "package_declaration" all
  | .unit => drawInner "program" all

mutual

/-- The node for a node of a reading. -/
def draw (f : Field) : Node → Draw Concrete
  | .token t => drawToken f t
  | .branch k cs => do assemble k (← drawAll cs)

/-- The nodes for several of them. -/
def drawAll : List (Field × Node) → Draw (List Drawn)
  | [] => return []
  | (.members, .branch .statement es) :: cs => do
    let ns ← drawAll es
    let member ← drawMember (Node.tokensOf es) (ns.map Prod.snd)
    return (.members, member) :: (← drawAll cs)
  | (.endMarker, _) :: cs => drawAll cs
  | (f, n) :: cs => do
    let c ← draw f n
    return (f, c) :: (← drawAll cs)

end

scoped instance treeSitter : TreeSitter where
  root text :=
    let ts := Scan.tokens text
    match unitOf? ts with
    | some cs => ((do assemble .unit (← drawAll cs)).run {}).1
    | none => .node ⟨"program", 0, true, false, 0, text.utf8ByteSize, 0, 0⟩ [(none, errorNode ts)]

end SourceMigration.StandIn
