import SourceMigration.Tree.Token
import SourceMigration.Tree.TypeName

/-!
# SourceMigration — the syntax tree

A tree keeps every token of its source text. An inner node has a kind and an ordered
list of children, each filed under a field; the order of the children is their order in
the text. What attribution finds out about a name is part of its kind. The structure is
deliberately shallow: packages, imports, declarations, members, blocks and statements
have kinds of their own, and all else is a run of elements.

`NodeKind.shape` says which fields a kind has and how many children each may hold. It is
a description beside the tree: an edit may leave a node that breaks it, and `Node.complete`
decides whether one has.

## Results

* `Node.induct`            — induction over nodes through their children.
* `Node.tokensOf_eq`       — the tokens of a list of children are those of each in turn.
* `Node.walkOf_eq`         — likewise for the nodes met on a walk.
-/

namespace SourceMigration

/-! ## Fields and kinds -/

/-- The role of a child in its parent. -/
inductive Field where
  | tokens
  | base
  | arguments
  | callee
  | elements
  | opening
  | statements
  | closing
  | keyword
  | supertype
  | modifiers
  | name
  | parameters
  | tail
  | body
  | terminator
  | members
  | kind
  | header
  | superclass
  | staticWord
  | wildcard
  | semicolon
  | package
  | imports
  | types
  | endMarker
  deriving DecidableEq, Repr, Inhabited

/-- The name under which a field is reported. -/
def Field.title : Field → String
  | .tokens => "tokens"
  | .base => "clazz"
  | .arguments => "arguments"
  | .callee => "token"
  | .elements => "elements"
  | .opening => "open"
  | .statements => "statements"
  | .closing => "close"
  | .keyword => "keyword"
  | .supertype => "type_tree"
  | .modifiers => "modifiers"
  | .name => "name"
  | .parameters => "parameters"
  | .tail => "tail"
  | .body => "body"
  | .terminator => "terminator"
  | .members => "members"
  | .kind => "kind"
  | .header => "header"
  | .superclass => "extends"
  | .staticWord => "static"
  | .wildcard => "wildcard"
  | .semicolon => "semicolon"
  | .package => "package"
  | .imports => "imports"
  | .types => "types"
  | .endMarker => "eof"

/-- How many children a field holds: exactly one, at most one, or any number. -/
inductive Multiplicity where
  | one
  | optional
  | many
  deriving DecidableEq, Repr

/-- The kinds of inner nodes. -/
inductive NodeKind where
  /-- A simple or dotted name, with the type it denotes if that is known. -/
  | name (type : Option TypeName)
  /-- A name with type arguments. -/
  | parameterized
  /-- The name of a method at a call, with the method it denotes if that is known. -/
  | call (method : Option MethodType)
  /-- A run of elements: a field, a local statement, the constants of an enumeration. -/
  | statement
  /-- Statements between braces. -/
  | block
  /-- The supertype of a class with its keyword. -/
  | extendsClause
  /-- A method, a constructor or an annotation element. -/
  | method
  /-- The members of a type between braces. -/
  | classBody
  /-- A class, interface, enumeration, record or annotation type. -/
  | typeDeclaration
  | importDeclaration
  | packageDeclaration
  /-- A whole source file. -/
  | unit
  deriving DecidableEq, Repr, Inhabited

namespace NodeKind

/-- The name under which a kind of node is reported. -/
def title : NodeKind → String
  | .name _ => "NameTree"
  | .parameterized => "ParameterizedType"
  | .call _ => "MethodName"
  | .statement => "Statement"
  | .block => "Block"
  | .extendsClause => "ExtendsClause"
  | .method => "MethodDeclaration"
  | .classBody => "ClassBody"
  | .typeDeclaration => "ClassDeclaration"
  | .importDeclaration => "Import"
  | .packageDeclaration => "PackageDeclaration"
  | .unit => "CompilationUnit"

/-- The fields of a node in the order of the text. -/
def shape : NodeKind → List (Field × Multiplicity)
  | .name _ => [(.tokens, .many)]
  | .parameterized => [(.base, .one), (.arguments, .many)]
  | .call _ => [(.callee, .one)]
  | .statement => [(.elements, .many)]
  | .block => [(.opening, .one), (.statements, .many), (.closing, .one)]
  | .extendsClause => [(.keyword, .one), (.supertype, .one)]
  | .method =>
    [(.modifiers, .many), (.name, .one), (.parameters, .many), (.tail, .many),
      (.body, .optional), (.terminator, .optional)]
  | .classBody => [(.opening, .one), (.members, .many), (.closing, .one)]
  | .typeDeclaration =>
    [(.modifiers, .many), (.kind, .one), (.name, .one), (.header, .many),
      (.superclass, .optional), (.tail, .many), (.body, .one)]
  | .importDeclaration =>
    [(.keyword, .one), (.staticWord, .optional), (.name, .one), (.wildcard, .many),
      (.semicolon, .one)]
  | .packageDeclaration =>
    [(.modifiers, .many), (.keyword, .one), (.name, .one), (.semicolon, .one)]
  | .unit => [(.package, .optional), (.imports, .many), (.types, .many), (.endMarker, .one)]

/-- Whether a field of a node holds any number of children. -/
def isMany (k : NodeKind) (f : Field) : Bool := k.shape.contains (f, .many)

/-- The fields whose first child begins the node: the first of them that has a child. -/
def frontFields : NodeKind → List Field
  | .name _ => [.tokens]
  | .parameterized => [.base]
  | .call _ => [.callee]
  | .statement => [.elements]
  | .block => [.opening]
  | .extendsClause => [.keyword]
  | .method => [.modifiers, .name]
  | .classBody => [.opening]
  | .typeDeclaration => [.modifiers, .kind]
  | .importDeclaration => [.keyword]
  | .packageDeclaration => [.modifiers, .keyword]
  | .unit => [.package, .imports, .types, .endMarker]

end NodeKind

/-! ## Nodes -/

/-- A syntax tree: a token, or a kind with children filed under fields. -/
inductive Node where
  | token (t : Token)
  | branch (kind : NodeKind) (children : List (Field × Node))
  deriving Inhabited

namespace Node

/-- Induction over nodes through their children. -/
theorem induct {P : Node → Prop} (token : ∀ t, P (.token t))
    (branch : ∀ k cs, (∀ c ∈ cs, P c.2) → P (.branch k cs)) : ∀ n, P n
  | .token t => token t
  | .branch k cs => branch k cs (children cs)
where
  children : ∀ (cs : List (Field × Node)), ∀ c ∈ cs, P c.2
    | [], _, h => nomatch h
    | (_, n) :: cs, c, h => by
      cases h with
      | head => exact Node.induct token branch n
      | tail _ h => exact children cs c h

/-- The children of a node with their fields; a token has none. -/
def children : Node → List (Field × Node)
  | .token _ => []
  | .branch _ cs => cs

/-- The name under which a node is reported. -/
def title : Node → String
  | .token _ => "Token"
  | .branch k _ => k.title

/-- The children filed under `f`, in order. -/
def field (n : Node) (f : Field) : List Node :=
  n.children.filterMap fun c => if c.1 = f then some c.2 else none

/-- The first child filed under `f`. -/
def field? (n : Node) (f : Field) : Option Node := (n.field f).head?

/-- The token filed under `f`, if the first child there is one. -/
def tokenAt? (n : Node) (f : Field) : Option Token :=
  match n.field? f with
  | some (.token t) => some t
  | _ => none

mutual

/-- The tokens of a node in the order of the text. -/
def tokens : Node → List Token
  | .token t => [t]
  | .branch _ cs => tokensOf cs

/-- The tokens of a list of children. -/
def tokensOf : List (Field × Node) → List Token
  | [] => []
  | (_, n) :: cs => n.tokens ++ tokensOf cs

end

mutual

/-- A node and all nodes below it, each before its children. -/
def walk : Node → List Node
  | .token t => [.token t]
  | .branch k cs => .branch k cs :: walkOf cs

/-- The nodes met on the walks of a list of children. -/
def walkOf : List (Field × Node) → List Node
  | [] => []
  | (_, n) :: cs => n.walk ++ walkOf cs

end

/-- The source text of a node. -/
def text (n : Node) : String := sourceOf n.tokens

/-- The trivia before the first token of a node. -/
def leading (n : Node) : String := (n.tokens.head?.map Token.leading).getD ""

mutual

/-- The node with other trivia before its first token. -/
def withLeading (leading : String) : Node → Node
  | .token t => .token (t.withLeading leading)
  | .branch k cs => .branch k (withLeadingIn leading cs)

/-- The children with other trivia before the first of them. -/
def withLeadingIn (leading : String) : List (Field × Node) → List (Field × Node)
  | [] => []
  | (f, n) :: cs => (f, n.withLeading leading) :: cs

end

/-- The identifiers that a name is made of. -/
def nameParts (n : Node) : List String :=
  (n.field .tokens).filterMap fun
    | .token t => if t.kind = .identifier then some t.text else none
    | .branch _ _ => none

/-- A name in its dotted spelling. -/
def dottedName (n : Node) : String := Text.joinDots n.nameParts

/-- Replaces the first child filed under `f`. -/
def setField (n : Node) (f : Field) (new : Node) : Node :=
  match n with
  | .token t => .token t
  | .branch k cs => .branch k (replaceFirst cs)
where
  replaceFirst : List (Field × Node) → List (Field × Node)
    | [] => []
    | (g, n) :: cs => if g = f then (g, new) :: cs else (g, n) :: replaceFirst cs

theorem tokensOf_eq (cs : List (Field × Node)) :
    tokensOf cs = cs.flatMap fun c => c.2.tokens := by
  induction cs with
  | nil => rfl
  | cons c cs ih => simp [tokensOf, ih]

theorem walkOf_eq (cs : List (Field × Node)) : walkOf cs = cs.flatMap fun c => c.2.walk := by
  induction cs with
  | nil => rfl
  | cons c cs ih => simp [walkOf, ih]

/-! ## Nodes that an edit has broken -/

/-- What is wrong with a node that cannot be printed or moved. -/
inductive Defect where
  /-- A field that must hold a child is empty. -/
  | absentChild
  /-- A run that must have a first element has none. -/
  | emptyRun
  deriving DecidableEq, Repr

mutual

/-- Every field that must hold a child does, here and below. -/
def complete : Node → Bool
  | .token _ => true
  | .branch k cs =>
    k.shape.all (fun s => s.2 != .one || cs.any (fun c => c.1 == s.1)) && completeAll cs

/-- The same of every child. -/
def completeAll : List (Field × Node) → Bool
  | [] => true
  | (_, n) :: cs => n.complete && completeAll cs

end

/-- Why the first token of a node cannot be reached through the fields that begin it. -/
def frontDefect? : Node → Option Defect
  | .token _ => none
  | .branch k cs =>
    match cs with
    | [] => some (if k.isMany (k.frontFields.headD .tokens) && k.frontFields.length == 1
        then .emptyRun else .absentChild)
    | (f, n) :: _ => if k.frontFields.contains f then n.frontDefect? else some .absentChild

end Node

end SourceMigration
