import SourceMigration.Text.Printable

/-!
# SourceMigration — quoted text

The form in which messages show a text: between single quotes, or between double quotes if
the text has a single quote and no double one. A backslash and the quote in use are written
with a backslash before them, line feed, carriage return and tab by their letters, and
other characters without a visible form by their code point.
-/

namespace SourceMigration.Text

/-- A code point in lower-case hexadecimal digits, at least `width` of them. -/
def hexDigits (width n : Nat) : List Char :=
  let digits := Nat.toDigits 16 n
  List.replicate (width - digits.length) '0' ++ digits

/-- The written form of one character between the given quotes. -/
def quoteChar (quote c : Char) : List Char :=
  if c == quote || c == '\\' then ['\\', c]
  else if c == '\n' then ['\\', 'n']
  else if c == '\r' then ['\\', 'r']
  else if c == '\t' then ['\\', 't']
  else if isPrintable c then [c]
  else if c.toNat < 0x100 then '\\' :: 'x' :: hexDigits 2 c.toNat
  else if c.toNat < 0x10000 then '\\' :: 'u' :: hexDigits 4 c.toNat
  else '\\' :: 'U' :: hexDigits 8 c.toNat

/-- The quote that a text is shown between. -/
def quoteFor (cs : List Char) : Char := if cs.contains '\'' && !cs.contains '"' then '"' else '\''

/-- The quoted form of a text. -/
def quoted (s : String) : String :=
  let cs := s.toList
  let q := quoteFor cs
  String.ofList (q :: cs.flatMap (quoteChar q) ++ [q])

/-- The quoted forms of several texts between square brackets. -/
def quotedList (texts : List String) : String := "[" ++ ", ".intercalate (texts.map quoted) ++ "]"

end SourceMigration.Text
