/-!
# SourceMigration — lines of a text

A text cut after each of its line ends. Besides the line feed, the carriage return and the
two together, the vertical tab, the form feed, the three information separators and the
three line separators of Unicode end a line.
-/

namespace SourceMigration.Text

/-- The characters that end a line. -/
def endsLine (c : Char) : Bool :=
  let n := c.toNat
  (10 ≤ n && n ≤ 13) || (0x1C ≤ n && n ≤ 0x1E) || n == 0x85 || n == 0x2028 || n == 0x2029

/-- The lines of a text, each with its end. -/
def splitLines : List Char → List (List Char)
  | [] => []
  | '\r' :: '\n' :: cs => ['\r', '\n'] :: splitLines cs
  | c :: cs =>
    if endsLine c then [c] :: splitLines cs
    else
      match splitLines cs with
      | [] => [[c]]
      | l :: ls => (c :: l) :: ls

/-- The lines of a text, each with its end. -/
def lines (s : String) : List String := (splitLines s.toList).map String.ofList

end SourceMigration.Text
