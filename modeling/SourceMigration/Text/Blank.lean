/-!
# SourceMigration — blank characters

Which characters count as blank when text is trimmed or split into words, and the
operations built on that class. The class is the Unicode white space together with
the four information separators; it is wider than the blanks that may stand between
two tokens of a source file, which the scanner names for itself.

## Results

* `leadingBlank_append_dropBlank` — a text is its leading blanks and the rest.
-/

namespace SourceMigration.Text

/-- The characters that trimming removes: Unicode white space, and the separators U+001C to U+001F. -/
def isBlank (c : Char) : Bool :=
  let n := c.toNat
  (9 ≤ n && n ≤ 13) || (0x1C ≤ n && n ≤ 0x20) || n == 0x85 || n == 0xA0 || n == 0x1680 ||
    (0x2000 ≤ n && n ≤ 0x200A) || n == 0x2028 || n == 0x2029 || n == 0x202F || n == 0x205F ||
    n == 0x3000

/-- The blanks a text begins with. -/
def leadingBlankChars (cs : List Char) : List Char := cs.takeWhile isBlank

/-- A text without the blanks it begins with. -/
def dropBlankChars (cs : List Char) : List Char := cs.dropWhile isBlank

/-- A text without the blanks at either end. -/
def stripChars (cs : List Char) : List Char :=
  (dropBlankChars (dropBlankChars cs).reverse).reverse

/-- The blanks a text begins with. -/
def leadingBlank (s : String) : String := String.ofList (leadingBlankChars s.toList)

/-- A text without the blanks it begins with. -/
def dropBlank (s : String) : String := String.ofList (dropBlankChars s.toList)

/-- A text without the blanks at either end. -/
def strip (s : String) : String := String.ofList (stripChars s.toList)

theorem leadingBlankChars_append_dropBlankChars (cs : List Char) :
    leadingBlankChars cs ++ dropBlankChars cs = cs := List.takeWhile_append_dropWhile

/-- A text is its leading blanks followed by the rest. -/
theorem leadingBlank_append_dropBlank (s : String) : leadingBlank s ++ dropBlank s = s := by
  apply String.toList_inj.mp
  simp [leadingBlank, dropBlank, leadingBlankChars_append_dropBlankChars]

end SourceMigration.Text
