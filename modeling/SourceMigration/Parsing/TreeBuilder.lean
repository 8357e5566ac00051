import SourceMigration.Parsing.Concrete
import SourceMigration.Text.Alphanumeric
import SourceMigration.Text.Slice
import SourceMigration.Tree.Node

/-!
# SourceMigration — from concrete syntax to trees

A concrete syntax tree tells ranges but no blanks. The conversion walks its leaves in the order of the
text and gives each token what stands between the end of the token before and its own start.

Packages, imports, type declarations, methods, class bodies and blocks are converted field by field.
Within statements only names, names with type arguments, the names of called methods, blocks and
local types are kept as nodes; of all else the leaves become tokens.
-/

namespace SourceMigration

/-- A conversion threads the end of the last token. It has no result where it asks for what is not there:
a first part where there is none, or a text that ends inside a character. -/
abbrev Conversion (α : Type) := StateT Nat Option α

namespace TreeBuilder

/-- The types of what is converted as a type declaration. -/
def typeDeclarations : List String :=
  ["class_declaration", "interface_declaration", "enum_declaration", "record_declaration",
    "annotation_type_declaration"]

/-- The types of what is converted as a method. -/
def methodDeclarations : List String :=
  ["method_declaration", "constructor_declaration", "annotation_type_element_declaration"]

/-- The types of what stands in the header of a declaration. -/
def headerTypes : List String := ["type_parameters", "formal_parameters"]

/-- The types of numerals. -/
def numberTypes : List String :=
  ["decimal_integer_literal", "hex_integer_literal", "octal_integer_literal",
    "binary_integer_literal", "decimal_floating_point_literal", "hex_floating_point_literal"]

/-- The types of literals that are kept as one token although they have parts. -/
def atomicTypes : List String := ["string_literal", "character_literal"]

/-- The kind of the token for a node that is spelled so. -/
def tokenKind (type : String) (spelling : List Char) : TokenKind :=
  if type == "identifier" || type == "type_identifier" then .identifier
  else if type == "string_literal" then
    if ['"', '"', '"'].isPrefixOf spelling then .textBlock else .string
  else if type == "character_literal" then .character
  else if numberTypes.contains type then .number
  else if (spelling.dropWhile (· == '@')).head?.any Text.isLetter then .keyword
  else .operator

/-- Some nodes filed under a field. -/
def fileUnder (f : Field) (ns : List Node) : List (Field × Node) := ns.map fun n => (f, n)

/-- A statement of some elements. -/
def statementOf (es : List Node) : Node := .branch .statement (fileUnder .elements es)

section Source

variable (source : List Char)

/-- The token for a node, with what stands before it since the last token. -/
def token (n : Concrete) : Conversion Token := fun offset => do
  let leading ← Text.slice? source offset n.info.start
  let spelling ← Text.slice? source n.info.start n.info.stop
  pure (⟨tokenKind n.type spelling, String.ofList spelling, String.ofList leading, n.info.row + 1,
    n.info.column + 1⟩, n.info.stop)

/-- The marker of the end, with what is left of the text. -/
def endMarker : Conversion Token := fun offset => do
  let leading ← Text.slice? source offset (Text.byteLength source)
  pure (⟨.endOfText, "", String.ofList leading, 0, 0⟩, Text.byteLength source)

/-- The token for a node as a node of the tree. -/
def tokenNode (n : Concrete) : Conversion Node := Node.token <$> token source n

/-- The name made of the leaves of a node. -/
def nameTree (n : Concrete) : Conversion Node := do
  let ts ← n.leaves.mapM (tokenNode source)
  pure (.branch (.name none) (fileUnder .tokens ts))

/-! ## Type declarations and methods by their fields -/

/-- What is found of a type declaration. -/
structure DeclarationParts where
  modifiers : List Node := []
  kind : Option Node := none
  name : Option Node := none
  header : List Node := []
  superclass : Option Node := none
  tail : List Node := []
  body : Option Node := none

/-- The type declaration made of its parts. -/
def DeclarationParts.toNode (p : DeclarationParts) : Node :=
  .branch .typeDeclaration
    (fileUnder .modifiers p.modifiers ++ fileUnder .kind p.kind.toList ++ fileUnder .name p.name.toList ++
      fileUnder .header p.header ++ fileUnder .superclass p.superclass.toList ++ fileUnder .tail p.tail ++
      fileUnder .body p.body.toList)

/-- What is found of a method. -/
structure MethodParts where
  modifiers : List Node := []
  name : Option Node := none
  parameters : List Node := []
  tail : List Node := []
  body : Option Node := none
  terminator : Option Node := none

/-- The method made of its parts. -/
def MethodParts.toNode (p : MethodParts) : Node :=
  .branch .method
    (fileUnder .modifiers p.modifiers ++ fileUnder .name p.name.toList ++
      fileUnder .parameters p.parameters ++ fileUnder .tail p.tail ++ fileUnder .body p.body.toList ++
      fileUnder .terminator p.terminator.toList)

/-- Whether a supertype clause is kept as a clause, and not as part of the tail. -/
def isExtends? (n : Concrete) : Option Bool :=
  match n.parts with
  | [_, type] => type.isTypeTree?
  | _ => some false

/-- Whether a part of a method belongs to its parameters. The elements of annotations have parentheses, but
no parameters. -/
def isParameters (n : Concrete) (p : MethodParts) (c : Concrete) : Bool :=
  c.isSame (n.field? "parameters") ||
    ((n.field? "parameters").isNone && p.tail.isEmpty && ["(", ")"].contains c.type)

/-! ## Elements -/

mutual

/-- The elements of a run that a node becomes. -/
def elements (n : Concrete) : Conversion (List Node) :=
  if n.isComment then pure []
  else if Concrete.nameTypes.contains n.type && n.isName then return [← nameTree source n]
  else if n.isLeaf || atomicTypes.contains n.type then return [← tokenNode source n]
  else do
    if n.type == "generic_type" then
      if ← n.isTypeTree? then
        return [← typeTree n]
    if typeDeclarations.contains n.type then return [← typeDeclaration n]
    else if n.type == "method_invocation" then invocation (n.field? "name") n.parts
    else if Concrete.areBraced n.parts then return [← block n]
    else elementsOf n.parts
termination_by 8 * n.size + 4
decreasing_by
  all_goals
    have := n.total_parts_lt
    omega

/-- The elements that some nodes become, one after another. -/
def elementsOf (ns : List Concrete) : Conversion (List Node) :=
  match ns with
  | [] => pure []
  | c :: cs => return (← elements c) ++ (← elementsOf cs)
termination_by 8 * Concrete.total ns + 6
decreasing_by
  all_goals
    have := c.size_pos
    simp only [Concrete.total_cons]
    omega

/-- The elements of a call: its name is told from the names around it. -/
def invocation (name : Option Concrete) (ns : List Concrete) : Conversion (List Node) :=
  match ns with
  | [] => pure []
  | c :: cs => do
    if c.isSame name then
      return .branch (.call none) [(.callee, ← tokenNode source c)] :: (← invocation name cs)
    else return (← elements c) ++ (← invocation name cs)
termination_by 8 * Concrete.total ns + 6
decreasing_by
  all_goals
    have := c.size_pos
    simp only [Concrete.total_cons]
    omega

/-- A class type that is kept whole. -/
def typeTree (n : Concrete) : Conversion Node := do
  if n.type != "generic_type" then nameTree source n
  else
    let base ← nameTree source (← n.parts.head?)
    let arguments ← elementsOf n.parts.tail
    return .branch .parameterized ((.base, base) :: fileUnder .arguments arguments)
termination_by 8 * n.size + 3
decreasing_by
  all_goals
    have := n.total_tail_lt
    omega

/-- The statements between braces: a named node begins one, and a sign joins the one before it. -/
def statements (ns : List Concrete) (done : List (List Node)) : Conversion (List (List Node)) :=
  match ns with
  | [] => pure done
  | c :: cs => do
    let es ← elements c
    if c.info.isNamed || done.isEmpty then statements cs (done ++ [es])
    else statements cs (done.dropLast ++ [done.getLastD [] ++ es])
termination_by 8 * Concrete.total ns + 6
decreasing_by
  all_goals
    have := c.size_pos
    simp only [Concrete.total_cons]
    omega

/-- What stands between braces, whatever they are the braces of. -/
def block (n : Concrete) : Conversion Node := do
  let opening ← tokenNode source (← n.parts.head?)
  let inside ← statements n.inner []
  let closing ← tokenNode source (← n.parts.getLast?)
  return .branch .block
    ((.opening, opening) :: fileUnder .statements (inside.map statementOf) ++ [(.closing, closing)])
termination_by 8 * n.size + 3
decreasing_by
  all_goals
    have := n.total_inner_lt
    omega

/-- The supertype of a class with its keyword. -/
def extendsClause (n : Concrete) : Conversion Node :=
  match _h : n.parts with
  | [keyword, type] => do
    let keyword ← tokenNode source keyword
    return .branch .extendsClause [(.keyword, keyword), (.supertype, ← typeTree type)]
  | _ => failure
termination_by 8 * n.size + 3
decreasing_by
  have : type.size < n.size := Concrete.size_lt_of_mem_parts (by simp [_h])
  omega

/-- Files one part of a type declaration. -/
def declarationPart (n c : Concrete) (p : DeclarationParts) : Conversion DeclarationParts := do
  if p.kind.isNone then
    if c.type == "modifiers" then return { p with modifiers := p.modifiers ++ (← elements c) }
    else return { p with kind := some (← tokenNode source c) }
  else if c.isSame (n.field? "name") then return { p with name := some (← tokenNode source c) }
  else if c.isSame (n.field? "body") then return { p with body := some (← classBody c) }
  else
    if c.type == "superclass" then
      if ← isExtends? c then
        return { p with superclass := some (← extendsClause c) }
    if p.superclass.isNone && p.tail.isEmpty && headerTypes.contains c.type then
      return { p with header := p.header ++ (← elements c) }
    else return { p with tail := p.tail ++ (← elements c) }
termination_by 8 * c.size + 5

/-- Goes through the parts of a type declaration. -/
def declarationParts (n : Concrete) (ns : List Concrete) (p : DeclarationParts) :
    Conversion DeclarationParts :=
  match ns with
  | [] => pure p
  | c :: cs => do declarationParts n cs (← declarationPart n c p)
termination_by 8 * Concrete.total ns + 6
decreasing_by
  all_goals
    have := c.size_pos
    simp only [Concrete.total_cons]
    omega

/-- A class, interface, enumeration, record or annotation type. -/
def typeDeclaration (n : Concrete) : Conversion Node := do
  return (← declarationParts n n.parts {}).toNode
termination_by 8 * n.size + 3
decreasing_by
  all_goals
    have := n.total_parts_lt
    omega

/-- The members of an enumeration. The constants, up to the semicolon behind them, are the first. -/
def enumMembers (ns : List Concrete) (constants : List Node) : Conversion (List Node) :=
  match ns with
  | [] => pure (if constants.isEmpty then [] else [statementOf constants])
  | c :: cs => do
    if c.type != "enum_body_declarations" then enumMembers cs (constants ++ (← elements c))
    else
      let separator ← tokenNode source (← c.parts.head?)
      let declarations ← members c.parts.tail
      return statementOf (constants ++ [separator]) :: declarations ++ (← enumMembers cs [])
termination_by 8 * Concrete.total ns + 6
decreasing_by
  all_goals
    have := c.size_pos
    have := c.total_tail_lt
    simp only [Concrete.total_cons]
    omega

/-- The body of a type. -/
def classBody (n : Concrete) : Conversion Node := do
  let opening ← tokenNode source (← n.parts.head?)
  let inside ← (if n.type == "enum_body" then enumMembers n.inner [] else members n.inner)
  let closing ← tokenNode source (← n.parts.getLast?)
  return .branch .classBody
    ((.opening, opening) :: fileUnder .members inside ++ [(.closing, closing)])
termination_by 8 * n.size + 3
decreasing_by
  all_goals
    have := n.total_inner_lt
    omega

/-- A member of a type, or what stands at the top of a file behind the imports. -/
def member (n : Concrete) : Conversion Node := do
  if typeDeclarations.contains n.type then typeDeclaration n
  else if methodDeclarations.contains n.type then method n
  else return statementOf (← elements n)
termination_by 8 * n.size + 5

/-- Some members, one after another. -/
def members (ns : List Concrete) : Conversion (List Node) :=
  match ns with
  | [] => pure []
  | c :: cs => return (← member c) :: (← members cs)
termination_by 8 * Concrete.total ns + 6
decreasing_by
  all_goals
    have := c.size_pos
    simp only [Concrete.total_cons]
    omega

/-- Files one part of a method, given whether it is the last. -/
def methodPart (n c : Concrete) (isLast : Bool) (p : MethodParts) : Conversion MethodParts := do
  if p.name.isNone then
    if c.isSame (n.field? "name") then return { p with name := some (← tokenNode source c) }
    else return { p with modifiers := p.modifiers ++ (← elements c) }
  else if c.isSame (n.field? "body") then return { p with body := some (← block c) }
  else if isParameters n p c then return { p with parameters := p.parameters ++ (← elements c) }
  else if c.type == ";" && isLast then return { p with terminator := some (← tokenNode source c) }
  else return { p with tail := p.tail ++ (← elements c) }
termination_by 8 * c.size + 5

/-- Goes through the parts of a method. -/
def methodParts (n : Concrete) (ns : List Concrete) (p : MethodParts) : Conversion MethodParts :=
  match ns with
  | [] => pure p
  | c :: cs => do methodParts n cs (← methodPart n c cs.isEmpty p)
termination_by 8 * Concrete.total ns + 6
decreasing_by
  all_goals
    have := c.size_pos
    simp only [Concrete.total_cons]
    omega

/-- A method, a constructor or an annotation element. -/
def method (n : Concrete) : Conversion Node := do
  return (← methodParts n n.parts {}).toNode
termination_by 8 * n.size + 3
decreasing_by
  all_goals
    have := n.total_parts_lt
    omega

end

/-! ## Units -/

/-- What is found of a package. -/
structure PackageParts where
  modifiers : List Node := []
  keyword : Option Node := none
  name : Option Node := none
  semicolon : Option Node := none

/-- Files one part of a package. -/
def packagePart (p : PackageParts) (c : Concrete) : Conversion PackageParts := do
  if c.type == "package" then return { p with keyword := some (← tokenNode source c) }
  else if c.type == ";" then return { p with semicolon := some (← tokenNode source c) }
  else if p.keyword.isNone then return { p with modifiers := p.modifiers ++ (← elements source c) }
  else return { p with name := some (← nameTree source c) }

/-- The package of a file. -/
def package (n : Concrete) : Conversion Node := do
  let p ← n.parts.foldlM (packagePart source) {}
  return .branch .packageDeclaration
    (fileUnder .modifiers p.modifiers ++ fileUnder .keyword p.keyword.toList ++
      fileUnder .name p.name.toList ++ fileUnder .semicolon p.semicolon.toList)

/-- What is found of an import. -/
structure ImportParts where
  keyword : Option Node := none
  staticWord : Option Node := none
  name : Option Node := none
  wildcard : List Node := []
  semicolon : Option Node := none

/-- Files one part of an import. -/
def importPart (p : ImportParts) (c : Concrete) : Conversion ImportParts := do
  if c.type == "import" then return { p with keyword := some (← tokenNode source c) }
  else if c.type == "static" then return { p with staticWord := some (← tokenNode source c) }
  else if [".", "asterisk"].contains c.type then
    return { p with wildcard := p.wildcard ++ [← tokenNode source c] }
  else if c.type == ";" then return { p with semicolon := some (← tokenNode source c) }
  else return { p with name := some (← nameTree source c) }

/-- An import. -/
def importOf (n : Concrete) : Conversion Node := do
  let p ← n.parts.foldlM (importPart source) {}
  return .branch .importDeclaration
    (fileUnder .keyword p.keyword.toList ++ fileUnder .staticWord p.staticWord.toList ++
      fileUnder .name p.name.toList ++ fileUnder .wildcard p.wildcard ++
      fileUnder .semicolon p.semicolon.toList)

/-- What is found of a file. -/
structure FileParts where
  package : Option Node := none
  imports : List Node := []
  types : List Node := []

/-- Files what stands at the top of a file. The package comes before all else, and imports come before all
but the package; what comes later is a type. -/
def filePart (p : FileParts) (c : Concrete) : Conversion FileParts := do
  if c.type == "package_declaration" && p.package.isNone && p.imports.isEmpty && p.types.isEmpty then
    return { p with package := some (← package source c) }
  else if c.type == "import_declaration" && p.types.isEmpty then
    return { p with imports := p.imports ++ [← importOf source c] }
  else return { p with types := p.types ++ [← member source c] }

/-- The unit of a file, given the root of its concrete syntax tree. -/
def unit (root : Concrete) : Conversion Node := do
  let p ← root.parts.foldlM (filePart source) {}
  let marker ← Node.token <$> endMarker source
  return .branch .unit
    (fileUnder .package p.package.toList ++ fileUnder .imports p.imports ++ fileUnder .types p.types ++
      [(.endMarker, marker)])

end Source

end TreeBuilder

end SourceMigration
