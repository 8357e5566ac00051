/-!
# SourceMigration — dotted names

A dotted name is a text cut at its dots. Cutting keeps empty parts, so joining the
parts with dots gives the text back, and every name has at least one part.

## Results

* `splitChars_ne_nil`      — a text has at least one part.
* `intercalate_splitChars` — the parts and what they were cut at make up the text.
-/

namespace SourceMigration.Text

/-- The parts of a text between its occurrences of `sep`; never empty. -/
def splitChars (sep : Char) : List Char → List (List Char)
  | [] => [[]]
  | c :: cs =>
    if c = sep then [] :: splitChars sep cs
    else
      match splitChars sep cs with
      | [] => [[c]]
      | p :: ps => (c :: p) :: ps

/-- The parts of a dotted name. -/
def splitDots (s : String) : List String := (splitChars '.' s.toList).map String.ofList

/-- The dotted name made of the given parts. -/
def joinDots (parts : List String) : String := ".".intercalate parts

/-- The part after the last dot, or the whole text. -/
def lastPart (s : String) : String :=
  String.ofList ((s.toList.reverse.takeWhile (· != '.')).reverse)

/-- The text before the last dot, or nothing when there is no dot. -/
def beforeLastDot (s : String) : String :=
  String.ofList (((s.toList.reverse.dropWhile (· != '.')).drop 1).reverse)

theorem splitChars_ne_nil (sep : Char) (cs : List Char) : splitChars sep cs ≠ [] := by
  cases cs with
  | nil => simp [splitChars]
  | cons c cs =>
    unfold splitChars
    split
    · simp
    · split <;> simp

/-- Joining the parts of a text with the separator they were cut at gives the text back. -/
theorem intercalate_splitChars (sep : Char) (cs : List Char) :
    [sep].intercalate (splitChars sep cs) = cs := by
  induction cs with
  | nil => simp [splitChars, List.intercalate]
  | cons c cs ih =>
    unfold splitChars
    have hne := splitChars_ne_nil sep cs
    split
    · rename_i h
      subst h
      cases hs : splitChars c cs with
      | nil => exact absurd hs hne
      | cons p ps => simp_all [List.intercalate, List.intersperse]
    · split
      · simp_all
      · rename_i p ps hs
        rw [hs] at ih
        rw [← ih]
        cases ps <;> simp [List.intercalate, List.intersperse]

end SourceMigration.Text
