/-!
# SourceMigration — decimal numerals

Whole numbers written in decimal digits. Single low lines may stand between digits.
-/

namespace SourceMigration.Numeral

/-- The digits of a numeral. -/
def digits? : List Char → Option (List Char)
  | [] => none
  | [c] => if c.isDigit then some [c] else none
  | c :: '_' :: cs => if c.isDigit then (digits? cs).map (c :: ·) else none
  | c :: cs => if c.isDigit then (digits? cs).map (c :: ·) else none

/-- The number that decimal digits spell. -/
def ofDigits (ds : List Char) : Nat := ds.foldl (fun n d => 10 * n + (d.toNat - '0'.toNat)) 0

end SourceMigration.Numeral
