import SourceMigration.Parsing.Parser
import SourceMigration.Proofs.Parsing.Trivia

/-!
# SourceMigration — what is relied on of the parser library

The parser library is no part of this project. What the conversion relies on is said here, of texts in
which the library finds no errors, and all of it is documented: of the library, that the leaves of a tree
stand in the text one after another with nothing but blanks and comments between them, and that places are
told by bytes and rows; of the grammar, what the nodes are made of whose parts are converted one by one.

Literals that are kept as one token count as leaves, whatever the library makes of their insides. Leaves but
for comments are called lexemes.

## Results

* `LawfulTreeSitter`   — the library keeps to what is said of it.
-/

namespace SourceMigration

open Layout (Trivia)
open TreeBuilder (atomicTypes typeDeclarations methodDeclarations headerTypes)

namespace Concrete

/-! ## Lexemes and nodes -/

mutual

/-- The signs, words and literals of a node in the order of the text. -/
def lexemes : Concrete → List Concrete
  | .node i cs =>
    if commentTypes.contains i.type then []
    else if cs.isEmpty || atomicTypes.contains i.type then [.node i cs]
    else lexemesOf cs

/-- The same of several nodes. -/
def lexemesOf : List (Option String × Concrete) → List Concrete
  | [] => []
  | (_, n) :: cs => n.lexemes ++ lexemesOf cs

end

mutual

/-- A node and all nodes below it. -/
def nodes : Concrete → List Concrete
  | .node i cs => .node i cs :: nodesOf cs

/-- The same of several nodes. -/
def nodesOf : List (Option String × Concrete) → List Concrete
  | [] => []
  | (_, n) :: cs => n.nodes ++ nodesOf cs

end

/-- The nodes below a node. -/
def inside (n : Concrete) : List Concrete := nodesOf n.children

/-! ## Spellings and places -/

/-- The types of identifiers. -/
def wordTypes : List String := ["identifier", "type_identifier"]

/-- The signs that lists of arguments are made of. -/
def listSigns : List String := ["(", ")", ","]

/-- What is known of the spelling of a lexeme. -/
structure Spells (n : Concrete) (spelling : List Char) : Prop where
  /-- It begins and ends with no blank. -/
  firm : Layout.Firm spelling
  /-- Signs and keywords are spelled like their types. -/
  sign : n.info.isNamed = false → spelling = n.type.toList
  /-- No point stands in an identifier. -/
  word : wordTypes.contains n.type = true → '.' ∉ spelling
  /-- What belongs to a rule is not spelled like the signs of a list. -/
  rule : n.info.isNamed = true → String.ofList spelling ∉ listSigns

/-- A spelling stands behind some text, at the place that is reported. -/
structure Info.StandsAt (i : Info) (before spelling : List Char) : Prop where
  start : i.start = Text.byteLength before
  stop : i.stop = Text.byteLength before + Text.byteLength spelling
  row : i.row = before.count '\n'
  column : i.column = Text.byteLength (Layout.lastLine before)

/-- Lexemes stand one after another in a text that goes on behind what is before it, with nothing but
trivia before each and after the last. -/
inductive Laid : List Char → List Char → List Concrete → Prop where
  | nil {before rest : List Char} (hRest : Trivia true rest) : Laid before rest []
  | cons {before gap spelling rest : List Char} {n : Concrete} {ns : List Concrete}
      (hGap : Trivia false gap) (hSpells : n.Spells spelling)
      (hStands : n.info.StandsAt (before ++ gap) spelling)
      (h : Laid (before ++ gap ++ spelling) rest ns) :
      Laid before (gap ++ spelling ++ rest) (n :: ns)

/-! ## Rules of the grammar -/

/-- What is left open of the parentheses among some signs, where so many are open before; none if one is
closed that was not opened. -/
def openAfter? : Nat → List String → Option Nat
  | depth, [] => some depth
  | depth, type :: types =>
    if type = "(" then openAfter? (depth + 1) types
    else if type = ")" then if depth = 0 then none else openAfter? (depth - 1) types
    else openAfter? depth types

/-- Whether the node is a body: braces stand around its parts, and it is no literal. -/
def isBody (n : Concrete) : Bool := areBraced n.parts && !atomicTypes.contains n.type

/-- A dotted name: a name, a point and an identifier. -/
def dots (n : Concrete) : Bool :=
  match n.parts with
  | [front, dot, word] =>
    nameTypes.contains front.type && dot.type == "." && wordTypes.contains word.type
  | _ => false

/-- A call: its name, and right behind it the arguments, which end it. -/
def invokes (n : Concrete) : Bool :=
  match n.parts.reverse with
  | arguments :: name :: _ =>
    arguments.type == "argument_list" && name.isSame (n.field? "name") && wordTypes.contains name.type
  | _ => false

/-- Arguments with a comma between each two. -/
def alternates : List Concrete → Bool
  | [argument] => argument.info.isNamed
  | argument :: comma :: rest => argument.info.isNamed && comma.type == "," && alternates rest
  | [] => false

/-- The arguments of a call between parentheses. -/
def listsArguments (n : Concrete) : Bool :=
  2 ≤ n.parts.length && n.parts.head?.any (·.type == "(") && n.parts.getLast?.any (·.type == ")") &&
    (n.inner.isEmpty || alternates n.inner)

/-- A declaration of a type: modifiers, a keyword, a name, parameters of either sort, other clauses, of which
only the first may be the supertype of a class, and a body. -/
def declaresType (n : Concrete) : Bool :=
  match n.parts.dropWhile (·.type == "modifiers") with
  | keyword :: name :: rest =>
    !keyword.info.isNamed && name.isSame (n.field? "name") && wordTypes.contains name.type &&
      (rest.dropLast.dropWhile (headerTypes.contains ·.type)).tail.all (·.type != "superclass") &&
      rest.getLast?.any fun body => body.isSame (n.field? "body") && body.isBody
  | _ => false

/-- A method: a name, right behind it the parameters if they are one node, and at the end either a body or a
semicolon. -/
def declaresMethod (n : Concrete) : Bool :=
  match n.parts.dropWhile (!·.isSame (n.field? "name")) with
  | name :: rest =>
    wordTypes.contains name.type &&
      ((n.field? "parameters").isNone || rest.dropLast.head?.any (·.isSame (n.field? "parameters"))) &&
      rest.getLast?.any fun last =>
        last.isSame (n.field? "body") && last.isBody ||
          (n.field? "body").isNone && last.type == ";"
  | [] => false

/-- A package: annotations, its keyword, a name and a semicolon. -/
def declaresPackage (n : Concrete) : Bool :=
  (n.parts.takeWhile (·.type != "package")).all (·.type != ";") &&
    match n.parts.dropWhile (·.type != "package") with
    | [keyword, name, semicolon] =>
      !keyword.info.isNamed && nameTypes.contains name.type && name.isName && semicolon.type == ";"
    | _ => false

/-- What is imported: a name, and perhaps all its members. -/
def namesImport (ns : List Concrete) : Bool :=
  match ns with
  | [name, semicolon] => nameTypes.contains name.type && name.isName && semicolon.type == ";"
  | [name, dot, asterisk, semicolon] =>
    nameTypes.contains name.type && name.isName && dot.type == "." && asterisk.type == "asterisk" &&
      asterisk.lexemes.map type == ["*"] && semicolon.type == ";"
  | _ => false

/-- An import: its keyword, perhaps another one for members of classes, and what is imported. -/
def declaresImport (n : Concrete) : Bool :=
  match n.parts with
  | keyword :: second :: rest =>
    keyword.type == "import" && !keyword.info.isNamed &&
      if second.type == "static" then !second.info.isNamed && namesImport rest
      else namesImport (second :: rest)
  | _ => false

/-- What the grammar says of the parts of a node, if they are converted one by one. -/
def followsRule (n : Concrete) : Bool :=
  if typeDeclarations.contains n.type then n.declaresType
  else if methodDeclarations.contains n.type then n.declaresMethod
  else if n.type == "package_declaration" then n.declaresPackage
  else if n.type == "import_declaration" then n.declaresImport
  else if n.type == "enum_body_declarations" then n.parts.head?.any (·.type == ";")
  else if n.type == "superclass" then n.parts.length == 2 && n.parts.head?.any (!·.info.isNamed)
  else if n.type == "generic_type" then n.parts.head?.any (nameTypes.contains ·.type)
  else if n.type == "method_invocation" then n.invokes
  else if n.type == "argument_list" then n.listsArguments
  else if nameTypes.contains n.type && n.isName && !n.isLeaf then n.dots
  else true

/-- What is known of every node below the root. -/
structure Regular (n : Concrete) : Prop where
  /-- Signs and keywords have no children. -/
  sign : n.info.isNamed = false → n.isLeaf = true
  /-- The names of rules begin with a letter or a low line. -/
  named : n.info.isNamed = true → n.type.toList.head?.any (fun c => c.isAlpha || c == '_') = true
  /-- Identifiers have no children. -/
  word : wordTypes.contains n.type = true → n.isLeaf = true
  /-- The children are told from one another. -/
  distinct : (n.children.map (·.2.info.id)).Nodup
  /-- A node begins where its first lexeme does. -/
  begins : n.isComment = false →
    n.lexemes.head?.map (fun m => (m.info.start, m.info.row, m.info.column)) =
      some (n.info.start, n.info.row, n.info.column)
  /-- A node ends where its last lexeme does. -/
  ends : n.isComment = false → n.lexemes.getLast?.map (·.info.stop) = some n.info.stop
  /-- Parentheses come in pairs. -/
  paired : openAfter? 0 (n.parts.map type) = some 0
  /-- No node begins with a comma. -/
  front : n.parts.head?.all (·.type != ",") = true
  rule : n.followsRule = true

end Concrete

/-- A library that keeps to what is said of it. -/
class LawfulTreeSitter [TreeSitter] : Prop where
  /-- The lexemes of a text stand in it one after another. A mark of byte order may begin the text. -/
  laid : ∀ {text : String}, (TreeSitter.root text).hasError = false →
    ∃ mark rest, (mark = [] ∨ mark = [Text.byteOrderMark]) ∧ text.toList = mark ++ rest ∧
      Concrete.Laid mark rest ((TreeSitter.root text).parts.flatMap Concrete.lexemes)
  regular : ∀ {text : String}, (TreeSitter.root text).hasError = false →
    ∀ n ∈ (TreeSitter.root text).inside, n.Regular
  /-- Every node begins and ends between two characters, also where there are errors. -/
  whole : ∀ {text : String}, ∀ n ∈ (TreeSitter.root text).nodes,
    (Text.slice? text.toList n.info.start n.info.stop).isSome = true

end SourceMigration
