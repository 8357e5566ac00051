/-!
# SourceMigration — tokens

A token is the smallest unit of a source text. It carries the blanks and comments that
stand before it, so that a text is the concatenation of its tokens.

## Results

* `sourceOf_append` — the source of a text in two parts.
-/

namespace SourceMigration

/-- What a token is. The same word can be an identifier in one place and a keyword in another. -/
inductive TokenKind where
  | textBlock
  | string
  | character
  | number
  | identifier
  | keyword
  | operator
  /-- The end of the text; its spelling is empty and its trivia is what follows the last token. -/
  | endOfText
  deriving DecidableEq, Repr, Inhabited

/-- The name under which a kind is reported. -/
def TokenKind.title : TokenKind → String
  | .textBlock => "TEXT_BLOCK"
  | .string => "STRING"
  | .character => "CHAR"
  | .number => "NUMBER"
  | .identifier => "IDENTIFIER"
  | .keyword => "KEYWORD"
  | .operator => "OPERATOR"
  | .endOfText => "EOF"

/-- One token with its leading trivia and the place where its spelling begins. -/
structure Token where
  kind : TokenKind
  text : String
  /-- The blanks and comments between the previous token and this one. -/
  leading : String := ""
  /-- The line of the first character, counted from one; zero for a token that was never read. -/
  line : Nat := 0
  /-- One more than the number of bytes before the first character on its line. -/
  column : Nat := 0
  deriving DecidableEq, Repr, Inhabited

namespace Token

/-- What the token contributes to the source text. -/
def source (t : Token) : String := t.leading ++ t.text

/-- The same token after other trivia. -/
def withLeading (leading : String) (t : Token) : Token := { t with leading }

/-- The same token with another spelling. -/
def withText (text : String) (t : Token) : Token := { t with text }

/-- A keyword, operator or identifier that is spelled `text`; a literal never is. -/
def spells (text : String) (t : Token) : Bool :=
  t.text == text && (t.kind == .operator || t.kind == .keyword || t.kind == .identifier)

/-- A new identifier that was not read from a text. -/
def identifier (text : String) (leading : String := "") : Token := ⟨.identifier, text, leading, 0, 0⟩

/-- A new operator without trivia. -/
def operator (text : String) : Token := ⟨.operator, text, "", 0, 0⟩

/-- A new keyword that was not read from a text. -/
def keyword (text : String) (leading : String := "") : Token := ⟨.keyword, text, leading, 0, 0⟩

@[simp] theorem text_withLeading (l : String) (t : Token) : (t.withLeading l).text = t.text := rfl

@[simp] theorem leading_withLeading (l : String) (t : Token) : (t.withLeading l).leading = l := rfl

end Token

/-- The source text that a list of tokens makes up. -/
def sourceOf (ts : List Token) : String := String.join (ts.map Token.source)

/-- The trivia before the tokens of a list, one after another. -/
def triviaOf (ts : List Token) : String := String.join (ts.map Token.leading)

theorem sourceOf_append (ts us : List Token) :
    sourceOf (ts ++ us) = sourceOf ts ++ sourceOf us := by
  simp [sourceOf, String.join_append]

end SourceMigration
