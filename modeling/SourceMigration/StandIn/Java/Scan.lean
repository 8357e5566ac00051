import SourceMigration.Text.Gap
import SourceMigration.Text.IdentifierClass
import SourceMigration.Tree.Token

/-!
# SourceMigration — scanning, for the library that stands in

Cutting a source text into tokens. Each token takes the longest spelling that fits, with
one exception: the sign `>` always stands alone, because only the grammar knows whether
two of them close two lists of type arguments or form a shift. Blanks and complete
comments go into the trivia of the token that follows them, and those at the end of the
text into the trivia of the end marker. A character that no token begins with stands for
itself as a sign, which no rule of the grammar reads, so that scanning never fails and
nothing is lost.
-/

namespace SourceMigration.StandIn.Scan

/-! ## Between tokens -/

open Text (isGap commentTail? byteOrderMark)

/-- Splits off the blanks and complete comments that a text begins with. -/
def splitTrivia : Nat → List Char → List Char × List Char
  | 0, cs => ([], cs)
  | fuel + 1, cs =>
    let step (n : Nat) : List Char × List Char :=
      let (trivia, rest) := splitTrivia fuel (cs.drop n)
      (cs.take n ++ trivia, rest)
    match cs with
    | '/' :: '/' :: r => step ((r.takeWhile (· != '\n')).length + 2)
    | '/' :: '*' :: r =>
      match commentTail? r with
      | some n => step (n + 2)
      -- An open comment is no trivia, so that the text is refused.
      | none => ([], cs)
    | c :: _ => if isGap c then step 1 else ([], cs)
    | [] => ([], cs)

/-! ## Spellings -/

/-- Words that are never identifiers. -/
def reservedWords : List String :=
  ["abstract", "assert", "boolean", "break", "byte", "case", "catch", "char", "class", "const",
    "continue", "default", "do", "double", "else", "enum", "extends", "final", "finally", "float",
    "for", "goto", "if", "implements", "import", "instanceof", "int", "interface", "long", "native",
    "new", "package", "private", "protected", "public", "return", "short", "static", "strictfp",
    "super", "switch", "synchronized", "this", "throw", "throws", "transient", "try", "void",
    "volatile", "while", "true", "false", "null"]

/-- The signs, a longer one before each that it begins with; `>` begins none of them. -/
def signs : List (List Char) :=
  ["<<=", "...", "->", "::", "++", "--", "&&", "||", "==", "!=", "<=", "<<", "+=", "-=", "*=",
    "/=", "%=", "&=", "|=", "^=", "(", ")", "\x7b", "\x7d", "[", "]", ";", ",", ".", "@", "=", "<",
    ">", "!", "~", "?", ":", "+", "-", "*", "/", "&", "|", "^", "%"].map String.toList

/-- The number of characters at the front that satisfy `p`. -/
def runLength (p : Char → Bool) (cs : List Char) : Nat := (cs.takeWhile p).length

/-- A digit of a numeral to base sixteen. -/
def isHexDigit (c : Char) : Bool :=
  c.isDigit || ('a' ≤ c && c ≤ 'f') || ('A' ≤ c && c ≤ 'F')

/-- A digit of a numeral to base two. -/
def isBinaryDigit (c : Char) : Bool := c == '0' || c == '1'

/-- The number of digits at the front, with the low lines that stand between digits. -/
def digitsLength (digit : Char → Bool) (cs : List Char) : Nat :=
  let run := cs.takeWhile fun c => digit c || c == '_'
  -- Low lines at the end stand between no two digits.
  run.length - runLength (· == '_') run.reverse

/-- The length of an exponent with one of the given marks, zero if there is none. -/
def exponentLength (mark : Char → Bool) : List Char → Nat
  | c :: '+' :: d :: cs =>
    if mark c && d.isDigit then 2 + digitsLength Char.isDigit (d :: cs) else 0
  | c :: '-' :: d :: cs =>
    if mark c && d.isDigit then 2 + digitsLength Char.isDigit (d :: cs) else 0
  | c :: d :: cs => if mark c && d.isDigit then 1 + digitsLength Char.isDigit (d :: cs) else 0
  | _ => 0

/-- The length of the letter that fixes the type of a numeral, zero if there is none. A numeral
with a point or an exponent takes no letter for a long integer. -/
def suffixLength (isWhole : Bool) : List Char → Nat
  | c :: _ =>
    if ['f', 'F', 'd', 'D'].contains c || (isWhole && ['l', 'L'].contains c) then 1 else 0
  | [] => 0

/-- The length of a point and the digits after it, zero if no point stands here. -/
def fractionLength : List Char → Nat
  | '.' :: c :: cs => if c.isDigit then 1 + digitsLength Char.isDigit (c :: cs) else 1
  | ['.'] => 1
  | _ => 0

/-- The length of the numeral that a text begins with. A base is named by a letter after a zero
only where one of its digits follows; otherwise the numeral is the zero alone. -/
def numberLength (cs : List Char) : Nat :=
  match cs with
  | '0' :: c :: d :: _ =>
    if (c == 'x' || c == 'X') && (isHexDigit d || d == '.') then
      let n := 2 + runLength (fun c => isHexDigit c || c == '_' || c == '.') (cs.drop 2)
      let m := n + exponentLength (fun c => c == 'p' || c == 'P') (cs.drop n)
      m + suffixLength (n == m) (cs.drop m)
    else if (c == 'b' || c == 'B') && isBinaryDigit d then
      let n := 2 + digitsLength isBinaryDigit (cs.drop 2)
      -- A long integer is the only other type that such a numeral can have.
      if (cs.drop n).head?.any (['l', 'L'].contains ·) then n + 1 else n
    else decimal
  | _ => decimal
where
  decimal : Nat :=
    let n := digitsLength Char.isDigit cs
    let m := n + fractionLength (cs.drop n)
    let l := m + exponentLength (fun c => c == 'e' || c == 'E') (cs.drop m)
    l + suffixLength (l == n) (cs.drop l)

/-- The number of characters up to the closing quote of a literal on one line. -/
def quotedTail? (quote : Char) : List Char → Option Nat
  | [] => none
  | '\\' :: c :: cs => if c == '\n' then none else (quotedTail? quote cs).map (· + 2)
  | c :: cs =>
    if c == quote then some 1 else if c == '\n' then none else (quotedTail? quote cs).map (· + 1)

/-- The number of characters up to the end of a text block. -/
def textBlockTail? : List Char → Option Nat
  | [] => none
  | '\\' :: _ :: cs => (textBlockTail? cs).map (· + 2)
  | '"' :: '"' :: '"' :: _ => some 3
  | _ :: cs => (textBlockTail? cs).map (· + 1)

/-- Whether the word that declares an annotation type stands here, after its sign. -/
def annotationTypeWord (cs : List Char) : Bool :=
  "interface".toList.isPrefixOf cs && !((cs.drop 9).head?.any Text.isIdentifierPart)

/-- The kind of the token that a text begins with, and the length of its spelling less one. -/
def lexeme : List Char → TokenKind × Nat
  | [] => (.operator, 0)
  | '"' :: '"' :: '"' :: cs =>
    match textBlockTail? cs with
    | some n => (.textBlock, n + 2)
    | none => (.operator, cs.length + 2)
  | '"' :: cs =>
    match quotedTail? '"' cs with
    | some n => (.string, n)
    | none => (.operator, 0)
  | '\'' :: cs =>
    match quotedTail? '\'' cs with
    -- A character literal holds at least one character.
    | some n => if n = 1 then (.operator, 0) else (.character, n)
    | none => (.operator, 0)
  | '@' :: cs => if annotationTypeWord cs then (.keyword, 9) else (.operator, 0)
  | c :: cs =>
    -- A numeral may begin with its point.
    if c.isDigit || (c == '.' && cs.head?.any Char.isDigit) then
      (.number, numberLength (c :: cs) - 1)
    else if Text.isIdentifierStart c then
      let rest := cs.takeWhile Text.isIdentifierPart
      let word := String.ofList (c :: rest)
      (if reservedWords.contains word then .keyword else .identifier, rest.length)
    -- A comment that is never closed takes the rest of the text.
    else if c == '/' && cs.head? == some '*' then (.operator, cs.length)
    else
      match signs.find? (·.isPrefixOf (c :: cs)) with
      | some s => (.operator, s.length - 1)
      | none => (.operator, 0)

/-! ## Places -/

/-- A line counted from one, and one more than the number of bytes before a place on it. -/
structure Place where
  line : Nat := 1
  column : Nat := 1
  deriving DecidableEq, Repr

/-- The place after one more character. -/
def Place.next (p : Place) (c : Char) : Place :=
  if c = '\n' then ⟨p.line + 1, 1⟩ else ⟨p.line, p.column + c.utf8Size⟩

/-- The place after more text. -/
def Place.after (p : Place) (cs : List Char) : Place := cs.foldl Place.next p

/-! ## Tokens -/

/-- The tokens of a text that begins at `place`. Every step takes at least one character, so
fuel that exceeds the length of the text is enough. -/
def scanFrom : Nat → Place → List Char → List Token
  | 0, _, cs => [⟨.operator, String.ofList cs, "", 0, 0⟩]
  | fuel + 1, place, cs =>
    let (trivia, rest) := splitTrivia cs.length cs
    let leading := String.ofList trivia
    match rest with
    | [] => [⟨.endOfText, "", leading, 0, 0⟩]
    | _ :: _ =>
      -- The place of a token is that of its spelling, not of its trivia.
      let start := place.after trivia
      let (kind, more) := lexeme rest
      let spelling := rest.take (more + 1)
      ⟨kind, String.ofList spelling, leading, start.line, start.column⟩ ::
        scanFrom fuel (start.after spelling) (rest.drop (more + 1))

/-- Puts more trivia before the first of some tokens. -/
def addTrivia (more : String) : List Token → List Token
  | [] => []
  | t :: ts => t.withLeading (more ++ t.leading) :: ts

/-- The tokens of a text; the last of them marks its end. -/
def tokens (text : String) : List Token :=
  let cs := text.toList
  if cs.head? = some byteOrderMark then
    -- The mark has three bytes, which count in the columns of the first line.
    addTrivia (String.ofList (cs.take 1))
      (scanFrom (cs.length + 1) (({} : Place).next byteOrderMark) (cs.drop 1))
  else scanFrom (cs.length + 1) {} cs

end SourceMigration.StandIn.Scan
