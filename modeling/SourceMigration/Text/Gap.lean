/-!
# SourceMigration — between tokens

What may stand between two tokens of a source text: blanks, of fewer sorts than trimming knows, and
comments.
-/

namespace SourceMigration.Text

/-- The blanks that may stand between two tokens. -/
def isGap (c : Char) : Bool :=
  c == ' ' || c == '\t' || c == '\n' || c == '\r' || c == '\x0b' || c == '\x0c'

/-- The number of characters up to the end of a comment that has been opened. -/
def commentTail? : List Char → Option Nat
  | [] => none
  | '*' :: '/' :: _ => some 2
  | _ :: cs => (commentTail? cs).map (· + 1)

/-- The mark of byte order, which may begin a text. -/
def byteOrderMark : Char := '\ufeff'

end SourceMigration.Text
