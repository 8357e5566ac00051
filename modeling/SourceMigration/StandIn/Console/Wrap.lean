import SourceMigration.Text.Blank
import SourceMigration.StandIn.Console.CellWidth

/-!
# SourceMigration — wrapped lines

Fits a line of text into a number of cells. A line is broken before a word that does not fit any
more; a word that would not fit into a line of its own is broken anywhere. The blanks after a
word belong to it and need not fit. Tabs are replaced by spaces up to the next stop.
-/

namespace SourceMigration.StandIn

open Text (isBlank dropBlankChars)

/-! ## Tabs -/

/-- A text with spaces up to the next stop in the place of each tab, given the number of cells
before it in its line. -/
def expandTabsFrom (size : Nat) : Nat → List Char → List Char
  | _, [] => []
  | position, c :: cs =>
    if c = '\t' then
      let spaces := size - position % size
      List.replicate spaces ' ' ++ expandTabsFrom size (position + spaces) cs
    else if c = '\n' || c = '\r' then c :: expandTabsFrom size 0 cs
    else c :: expandTabsFrom size (position + 1) cs

/-- A text with spaces up to the next stop in the place of each tab. -/
def expandTabs (size : Nat) (cs : List Char) : List Char := expandTabsFrom size 0 cs

/-! ## Words -/

/-- The words of a text with the blanks after them, and the first one also with the blanks before
it. Every word takes a character, so the length of the text is fuel enough. -/
def wordsFrom : Nat → List Char → List (List Char)
  | 0, cs => [cs]
  | fuel + 1, cs =>
    let lead := cs.takeWhile isBlank
    let rest := cs.drop lead.length
    let core := rest.takeWhile fun c => !isBlank c
    let rest := rest.drop core.length
    let blanks := rest.takeWhile isBlank
    let word := lead ++ core ++ blanks
    let rest := rest.drop blanks.length
    if rest.isEmpty then [word] else word :: wordsFrom fuel rest

/-- The words of a text with the blanks around them. -/
def wordsOf (cs : List Char) : List (List Char) := wordsFrom cs.length cs

/-! ## Lines -/

/-- The parts of a word that fit into `width` cells, after a part that takes `offset` cells. -/
def chopAfter (width : Nat) : List Char → Nat → List Char → List (List Char)
  | part, _, [] => [part]
  | part, offset, c :: cs =>
    let w := match part.getLast? with
      | some before => cellWidthAfter before c
      | none => cellWidth c
    -- A part takes at least one character, however wide.
    if width < offset + w && !part.isEmpty then part :: chopAfter width [c] (cellWidth c) cs
    else chopAfter width (part ++ [c]) (offset + w) cs

/-- The parts of a word that fit into `width` cells. -/
def chop (width : Nat) (word : List Char) : List (List Char) := chopAfter width [] 0 word

/-- The lines of words after a line that takes `offset` cells so far. -/
def fillAfter (width : Nat) : List Char → Nat → List (List Char) → List (List Char)
  | line, _, [] => [line]
  | line, offset, word :: words =>
    -- The blanks after a word may stick out.
    let needed := cells (dropBlankChars word.reverse).reverse
    if offset + needed ≤ width then
      fillAfter width (line ++ word) (offset + cells word) words
    else if width < needed then
      -- A word wider than a line is cut, and the next words follow its last part.
      let parts := chop width word
      let last := parts.getLast?.getD []
      (if line.isEmpty then [] else [line]) ++ parts.dropLast ++
        fillAfter width last (cells last) words
    else line :: fillAfter width word (cells word) words

/-- The lines of a text. -/
def wrap (width : Nat) (cs : List Char) : List (List Char) := fillAfter width [] 0 (wordsOf cs)

end SourceMigration.StandIn
