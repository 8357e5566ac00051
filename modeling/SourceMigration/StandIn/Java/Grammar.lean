import SourceMigration.StandIn.Java.Pattern

/-!
# SourceMigration — the grammar of the library that stands in

The language of the source files, as a pattern for each rule. Only what later work asks
for gets a node of its own; expressions, parameter lists and the like are flat runs, so
the grammar knows neither precedence nor association of operators.

Three decisions shape the runs. A dotted chain of identifiers is one name, but the name of
a method at a call is never part of the chain before it. All between braces is a block,
whose statements are its parts: a separator joins the part before it. And a type
declaration is a node wherever it stands, while the members of a class body without a
name are parts of a block like any others.

An alternative that fails does so near its first token, or shares no more than modifiers
and a type with the one after it; reading takes time proportional to the text, up to the
depth of nested annotations.
-/

namespace SourceMigration.StandIn

/-- The rules that refer to one another. -/
inductive Rule where
  | type
  | typeArguments
  | expression
  | operand
  | statement
  | typeDeclaration
  | member
  | bareMember
  | annotationUse
  | annotationValue
  | arrayContents
  | casePattern
  deriving DecidableEq, Repr

namespace Grammar

open Pattern

/-- A pattern that may refer to the rules of this grammar. -/
abbrev P := Pattern Rule

/-- The pattern of a rule. -/
def ref (r : Rule) : P := .rule r

/-! ## Names -/

/-- One identifier as a name. -/
def simpleName : P := node (.name none) (inField .tokens identifier)

/-- A dotted chain of identifiers as a name. -/
def dottedName : P :=
  node (.name none) (inField .tokens (separated (sign ".") identifier))

/-- The longest dotted chain that does not run into the name of a called method. -/
def chainBeforeCall : P :=
  node (.name none) (inField .tokens
    (identifier ++ many (sign "." ++ identifier ++ notAhead (sign "("))))

/-- The name of a method at a call. -/
def callee : P := node (.call none) (inField .callee identifier)

/-! ## Braces -/

/-- A block whose parts are read by `part`; separators join the part before them. -/
def blockOf (separator : String) (part : P) : P :=
  node .block
    (inField .opening (sign "\x7b") ++
      -- Separators with no part before them are a statement of their own.
      maybe (inField .statements (node .statement (oneOrMore (sign separator)))) ++
      many (inField .statements (node .statement (part ++ many (sign separator)))) ++
      inField .closing (sign "\x7d"))

/-- A list between braces, whose elements are the statements of a block. -/
def bracedList (element : P) : P :=
  node .block
    (inField .opening (sign "\x7b") ++
      -- A comma may stand alone between the braces.
      maybe (inField .statements (node .statement (sign "," ++ ahead (sign "\x7d")))) ++
      many (inField .statements
        (node .statement (element ++ (sign "," <|> ahead (sign "\x7d"))))) ++
      inField .closing (sign "\x7d"))

/-! ## Types -/

def annotations : P := many (ref .annotationUse)

/-- The words that modify a declaration. -/
def modifierWords : List String :=
  ["public", "protected", "private", "abstract", "static", "final", "strictfp", "default",
    "synchronized", "native", "transient", "volatile", "sealed"]

def modifiers : P :=
  many (ref .annotationUse <|> words modifierWords <|> glued .keyword ["non", "-", "sealed"])

def primitiveType : P :=
  words ["int", "void", "boolean", "long", "byte", "short", "char", "float", "double"]

/-- A name with type arguments. -/
def parameterizedName : P :=
  node .parameterized
    (inField .base dottedName ++ inField .arguments (ref .typeArguments))

/-- Further parts of the name of a class type, each of which may have annotations and arguments. -/
def typeTail : P :=
  many (sign "." ++ annotations ++ simpleName ++ maybe (ref .typeArguments))

def classType : P := (parameterizedName <|> dottedName) ++ typeTail

def dimensions : P := many (annotations ++ sign "[" ++ sign "]")

/-- A type without annotations before it. -/
def bareType : P := (primitiveType <|> classType) ++ dimensions

/-- A class type that a supertype clause keeps as one node. -/
def plainSupertype : P :=
  (parameterizedName <|> dottedName) ++ notAhead (sign "." <|> sign "[")

def typeArguments : P :=
  sign "<" ++
    maybe (separated (sign ",")
      (annotations ++ sign "?" ++ maybe (words ["extends", "super"] ++ ref .type) <|>
        ref .type)) ++
    sign ">"

def typeParameters : P :=
  sign "<" ++
    separated (sign ",")
      (annotations ++ simpleName ++
        maybe (word "extends" ++ separated (sign "&") (ref .type))) ++
    sign ">"

def types : P := separated (sign ",") (ref .type)

/-! ## Parameters and variables -/

def parameter : P :=
  modifiers ++ bareType ++
    oneOf [
      many (simpleName ++ sign ".") ++ word "this",
      annotations ++ sign "..." ++ simpleName ++ dimensions,
      simpleName ++ dimensions]

def parameters : P := sign "(" ++ maybe (separated (sign ",") parameter) ++ sign ")"

/-- What a variable is set to: an expression or the contents of an array. -/
def initializer : P := ref .arrayContents <|> ref .expression

def declarators : P :=
  separated (sign ",") (simpleName ++ dimensions ++ maybe (sign "=" ++ initializer))

def variableDeclaration : P := modifiers ++ bareType ++ declarators ++ sign ";"

/-! ## Expressions -/

def arguments : P :=
  sign "(" ++ maybe (separated (sign ",") (ref .expression)) ++ sign ")"

def block : P := blockOf ";" (ref .statement)

/-- The body of a class without a name. -/
def bareClassBody : P := blockOf ";" (ref .bareMember)

def lambda : P :=
  oneOf [
      simpleName,
      sign "(" ++ maybe (separated (sign ",") simpleName) ++ sign ")",
      parameters] ++
    sign "->" ++ (block <|> ref .expression)

/-- What may follow a cast to a class type; a sign that can also be binary may not. -/
def castOperandStart : P :=
  oneOf [identifier, sign "(", sign "!", sign "~", literal .number, literal .string,
    literal .character, literal .textBlock, primitiveType,
    words ["this", "super", "new", "switch", "true", "false", "null"]]

def cast : P :=
  oneOf [
    sign "(" ++ annotations ++ primitiveType ++ dimensions ++ sign ")" ++ ref .operand,
    -- A name in parentheses before a plus or minus is an operand, not a cast.
    sign "(" ++ separated (sign "&") (ref .type) ++ sign ")" ++ ahead castOperandStart ++
      (lambda <|> ref .operand)]

/-- What follows the word that creates an object or an array. -/
def creation : P :=
  maybe (ref .typeArguments) ++ annotations ++ (primitiveType <|> classType) ++
    oneOf [
      arguments ++ maybe bareClassBody,
      oneOrMore (annotations ++ sign "[" ++ ref .expression ++ sign "]") ++ dimensions,
      oneOrMore (annotations ++ sign "[" ++ sign "]") ++ ref .arrayContents]

/-- A value that a case label names; it is never a function. -/
def caseConstant : P :=
  ref .operand ++ maybe (sign "?" ++ ref .expression ++ sign ":" ++ ref .operand)

def caseLabel : P :=
  word "case" ++
      separated (sign ",") (ref .casePattern <|> word "default" <|> caseConstant) ++
      maybe (word "when" ++ ref .operand) <|>
    word "default"

/-- The body of a switch: rules, or labels with the statements after each. -/
def switchBlock : P :=
  node .block
    (inField .opening (sign "\x7b") ++
      -- A switch without any label counts as one with labels.
      (oneOrMore (inField .statements (node .statement
          (caseLabel ++ sign "->" ++ (block <|> ref .statement)))) <|>
        many (inField .statements (node .statement
          (caseLabel ++ sign ":" ++ many (ref .statement))))) ++
      inField .closing (sign "\x7d"))

def switch : P := word "switch" ++ sign "(" ++ ref .expression ++ sign ")" ++ switchBlock

/-- A type with arguments or dimensions where only a reference to one of its members can stand. -/
def typeOperand : P :=
  bareType ++ ahead (sign "::" <|> sign "." ++ word "class")

def primary : P :=
  oneOf [
    literal .number, literal .string, literal .character, literal .textBlock,
    words ["true", "false", "null"],
    word "new" ++ creation,
    words ["this", "super"] ++ maybe arguments,
    switch,
    sign "(" ++ ref .expression ++ sign ")",
    -- A call comes before a name, and a type with its arguments before an operand.
    callee ++ arguments,
    typeOperand,
    chainBeforeCall]

/-- What may follow a primary: a member, an element, a reference or a step. -/
def selector : P :=
  oneOf [
    sign "." ++
      oneOf [
        callee ++ arguments,
        simpleName,
        ref .typeArguments ++ (callee <|> word "super") ++ arguments,
        word "super" ++ maybe arguments,
        words ["this", "class"],
        word "new" ++ creation,
        literal .string, literal .textBlock],
    sign "[" ++ ref .expression ++ sign "]",
    sign "::" ++ maybe (ref .typeArguments) ++ (simpleName <|> word "new"),
    signs ["++", "--"]]

def binaryOperators : P :=
  oneOf [
    signs ["+", "-", "*", "/", "%", "==", "!=", "&&", "||", "<", "<=", "<<", "&", "|", "^"],
    -- The longest sign first; each is cut short where it begins an assignment.
    glued .operator [">", ">", ">"] ++ notAhead (sign "="),
    glued .operator [">", ">"] ++ notAhead (sign "="),
    glued .operator [">", "="],
    sign ">"]

def assignmentOperators : P :=
  oneOf [
    signs ["=", "+=", "-=", "*=", "/=", "%=", "&=", "|=", "^=", "<<="],
    glued .operator [">", ">", ">", "="],
    glued .operator [">", ">", "="]]

/-- Operands joined by binary operators and type tests; nothing in it binds more loosely. -/
def operand : P :=
  many (signs ["+", "-", "!", "~", "++", "--"]) ++
    (cast <|> primary ++ many selector) ++
    many (oneOf [
      word "instanceof" ++ (ref .casePattern <|> maybe (word "final") ++ ref .type),
      binaryOperators ++ ref .operand])

def expression : P :=
  lambda <|>
    ref .operand ++
      maybe (oneOf [
        assignmentOperators ++ ref .expression,
        sign "?" ++ ref .expression ++ sign ":" ++ ref .expression])

/-- A pattern that binds variables. -/
def casePattern : P :=
  modifiers ++ bareType ++
    (sign "(" ++ maybe (separated (sign ",") (ref .casePattern)) ++ sign ")" <|> simpleName)

/-! ## Annotations -/

def annotationUse : P :=
  sign "@" ++ dottedName ++
    maybe (sign "(" ++
      maybe (oneOf [
        separated (sign ",") (simpleName ++ sign "=" ++ ref .annotationValue),
        ref .annotationValue]) ++
      sign ")")

def annotationValue : P :=
  oneOf [ref .annotationUse, bracedList (ref .annotationValue), ref .expression]

/-! ## Statements -/

def condition : P := sign "(" ++ ref .expression ++ sign ")"

def forHeader : P :=
  oneOf [
    modifiers ++ bareType ++ simpleName ++ dimensions ++ sign ":" ++ ref .expression,
    (variableDeclaration <|> maybe (separated (sign ",") (ref .expression)) ++ sign ";") ++
      maybe (ref .expression) ++ sign ";" ++
      maybe (separated (sign ",") (ref .expression))]

def resource : P :=
  modifiers ++ bareType ++ simpleName ++ dimensions ++ sign "=" ++ ref .expression <|>
    ref .operand

def handlers : P :=
  many (word "catch" ++ sign "(" ++ modifiers ++ separated (sign "|") (ref .type) ++
    simpleName ++ dimensions ++ sign ")" ++ block)

def tryStatement : P :=
  word "try" ++
    oneOf [
      sign "(" ++ separated (sign ";") resource ++ maybe (sign ";") ++ sign ")" ++ block ++
        handlers ++ maybe (word "finally" ++ block),
      block ++ ahead (words ["catch", "finally"]) ++ handlers ++
        maybe (word "finally" ++ block)]

def statement : P :=
  oneOf [
    block,
    sign ";",
    word "if" ++ condition ++ ref .statement ++ maybe (word "else" ++ ref .statement),
    word "while" ++ condition ++ ref .statement,
    word "for" ++ sign "(" ++ forHeader ++ sign ")" ++ ref .statement,
    word "do" ++ ref .statement ++ word "while" ++ condition ++ sign ";",
    tryStatement,
    -- A switch that goes on with a selector is an expression.
    switch ++ notAhead (sign "."),
    word "synchronized" ++ condition ++ block,
    word "return" ++ maybe (ref .expression) ++ sign ";",
    word "throw" ++ ref .expression ++ sign ";",
    words ["break", "continue"] ++ maybe simpleName ++ sign ";",
    word "assert" ++ ref .expression ++ maybe (sign ":" ++ ref .expression) ++ sign ";",
    word "yield" ++ ref .expression ++ sign ";",
    -- Declarations come before expressions: a type and a name begin no expression.
    ref .typeDeclaration,
    variableDeclaration,
    simpleName ++ sign ":" ++ ref .statement,
    ref .typeArguments ++ words ["this", "super"] ++ arguments ++ sign ";",
    ref .expression ++ sign ";"]

/-! ## Declarations -/

def throwsClause : P := maybe (word "throws" ++ types)

/-- A method or an annotation element, with a name of the given form. -/
def typedMethodOf (wrap : P → P) (name ends : P) : P :=
  wrap
    (inField .modifiers
        (modifiers ++ maybe (typeParameters ++ annotations) ++ bareType) ++
      inField .name name ++
      inField .parameters parameters ++
      inField .tail (dimensions ++ throwsClause ++
        maybe (word "default" ++ ref .annotationValue)) ++
      ends)

/-- A constructor, with a name of the given form. -/
def constructorOf (wrap : P → P) (name : P) : P :=
  wrap
    (inField .modifiers (modifiers ++ maybe typeParameters) ++
      inField .name name ++
      inField .parameters parameters ++
      inField .tail throwsClause ++
      inField .body block)

/-- A method as a node of its own. -/
def typedMethod : P :=
  typedMethodOf (node .method) identifier (inField .body block <|> inField .terminator (sign ";"))

/-- A method or a constructor as a node of its own. -/
def method : P := typedMethod <|> constructorOf (node .method) identifier

/-- A method or a constructor as a flat run. -/
def bareMethod : P :=
  typedMethodOf (inField .elements) simpleName (block <|> sign ";") <|>
    constructorOf (inField .elements) simpleName

/-- A field, an initializer or the constructor of a record without parameters. -/
def otherMember : P :=
  oneOf [
    maybe (word "static") ++ block,
    variableDeclaration,
    -- A constructor of a record without parameters.
    modifiers ++ simpleName ++ block]

def member : P :=
  oneOf [
    node .statement (sign ";"),
    ref .typeDeclaration,
    method,
    node .statement otherMember]

def bareMember : P := oneOf [ref .typeDeclaration, bareMethod, otherMember]

def members : P := many (inField .members (ref .member))

def classBody : P :=
  node .classBody (inField .opening (sign "\x7b") ++ members ++ inField .closing (sign "\x7d"))

def enumerationConstant : P :=
  annotations ++ simpleName ++ maybe arguments ++ maybe bareClassBody

/-- The constants with all that separates and ends them are the first member. -/
def enumerationBody : P :=
  node .classBody
    (inField .opening (sign "\x7b") ++
      maybe (notAhead (sign "\x7d") ++
        inField .members (node .statement
          (maybe (separated (sign ",") enumerationConstant) ++ maybe (sign ",") ++
            (sign ";" <|> ahead (sign "\x7d")))) ++
        members) ++
      inField .closing (sign "\x7d"))

def extendsClause : P :=
  inField .superclass (node .extendsClause
      (inField .keyword (word "extends") ++ inField .supertype plainSupertype)) <|>
    -- Any other supertype is part of the tail.
    inField .tail (word "extends" ++ ref .type)

/-- A list of types after a word, beside the supertype. -/
def typeClause (text : String) : P := maybe (inField .tail (word text ++ types))

def typeDeclaration : P :=
  node .typeDeclaration
    (inField .modifiers modifiers ++
      oneOf [
        inField .kind (word "class") ++ inField .name identifier ++
          inField .header (maybe typeParameters) ++ maybe extendsClause ++
          typeClause "implements" ++ typeClause "permits" ++ inField .body classBody,
        inField .kind (word "interface") ++ inField .name identifier ++
          inField .header (maybe typeParameters) ++ typeClause "extends" ++
          typeClause "permits" ++ inField .body classBody,
        inField .kind (word "enum") ++ inField .name identifier ++
          typeClause "implements" ++ inField .body enumerationBody,
        inField .kind (word "record") ++ inField .name identifier ++
          inField .header (maybe typeParameters ++ parameters) ++
          typeClause "implements" ++ inField .body classBody,
        inField .kind (word "@interface") ++ inField .name identifier ++
          inField .body classBody])

/-! ## Units -/

def packageDeclaration : P :=
  inField .modifiers annotations ++ inField .keyword (word "package") ++
    inField .name dottedName ++ inField .semicolon (sign ";")

def importDeclaration : P :=
  inField .keyword (word "import") ++ maybe (inField .staticWord (word "static")) ++
    inField .name dottedName ++
    maybe (inField .wildcard (sign "." ++ sign "*")) ++ inField .semicolon (sign ";")

def moduleDirective : P :=
  oneOf [
      word "requires" ++ many (words ["transitive", "static"]) ++ dottedName,
      words ["exports", "opens"] ++ dottedName ++
        maybe (word "to" ++ separated (sign ",") dottedName),
      word "uses" ++ dottedName,
      word "provides" ++ dottedName ++ word "with" ++ separated (sign ",") dottedName] ++
    sign ";"

def moduleDeclaration : P :=
  annotations ++ maybe (word "open") ++ word "module" ++ dottedName ++
    blockOf ";" moduleDirective

/-- What stands at the top of a file after the package and the imports. -/
def topLevel : P :=
  oneOf [
    node .statement (inField .elements packageDeclaration),
    node .statement (inField .elements importDeclaration),
    node .statement moduleDeclaration,
    ref .typeDeclaration,
    typedMethod,
    node .statement (ref .statement)]

/-- A whole file, except for the marker of its end. -/
def unit : P :=
  maybe (inField .package (node .packageDeclaration packageDeclaration)) ++
    many (inField .imports (node .importDeclaration importDeclaration)) ++
    many (inField .types topLevel) ++
    inField .endMarker (literal .endOfText)

/-- The pattern of each rule. -/
def rules : Rule → P
  | .type => annotations ++ bareType
  | .typeArguments => typeArguments
  | .expression => expression
  | .operand => operand
  | .statement => statement
  | .typeDeclaration => typeDeclaration
  | .member => member
  | .bareMember => bareMember
  | .annotationUse => annotationUse
  | .annotationValue => annotationValue
  | .arrayContents => bracedList initializer
  | .casePattern => casePattern

end Grammar

end SourceMigration.StandIn
