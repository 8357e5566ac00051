/-!
# SourceMigration — wildcards

Patterns for whole texts: `*` stands for any characters, `?` for one, and brackets for one of a
set of characters and ranges, or after `!` for one outside the set. A bracket that is never
closed stands for itself. Nothing else has a meaning of its own, not even a slash.
-/

namespace SourceMigration

/-- One element of a set in brackets. -/
inductive SetItem where
  | single (c : Char)
  | range (low high : Char)
  deriving DecidableEq, Repr

/-- One element of a pattern. -/
inductive WildcardPart where
  | literal (c : Char)
  | anyOne
  | anyMany
  | oneOf (isNegated : Bool) (items : List SetItem)
  deriving DecidableEq, Repr

/-- A pattern for whole texts. -/
structure Wildcard where
  parts : List WildcardPart
  deriving DecidableEq, Repr

namespace Wildcard

/-! ## Reading -/

/-- The length of the set after an opening bracket, up to the bracket that closes it. A closing
bracket at the front of the set belongs to it. -/
def setLength? (cs : List Char) : Option Nat :=
  let start := if cs.head? = some '!' then 1 else 0
  let start := if (cs.drop start).head? = some ']' then start + 1 else start
  let length := start + ((cs.drop start).takeWhile (· != ']')).length
  if length < cs.length then some length else none

/-- The elements of a set. A hyphen between two characters makes them a range; at either end of
the set, and right after a range, it stands for itself. -/
def setItems : List Char → List SetItem
  | a :: '-' :: b :: cs => .range a b :: setItems cs
  | a :: cs => .single a :: setItems cs
  | [] => []

/-- The set between two brackets. -/
def setOf : List Char → WildcardPart
  | '!' :: cs => .oneOf true (setItems cs)
  | cs => .oneOf false (setItems cs)

/-- Reads the parts of a pattern; every step takes a character, so its length is fuel enough. -/
def partsOf : Nat → List Char → List WildcardPart
  | 0, _ => []
  | _, [] => []
  | fuel + 1, c :: cs =>
    if c = '*' then .anyMany :: partsOf fuel cs
    else if c = '?' then .anyOne :: partsOf fuel cs
    else if c = '[' then
      match setLength? cs with
      | some n => setOf (cs.take n) :: partsOf fuel (cs.drop (n + 1))
      | none => .literal '[' :: partsOf fuel cs
    else .literal c :: partsOf fuel cs

/-- Reads a pattern. -/
def ofText (s : String) : Wildcard := ⟨partsOf s.length s.toList⟩

/-! ## Matching -/

/-- Whether a character belongs to an element of a set. A range that runs backwards is empty. -/
def SetItem.holds (c : Char) : SetItem → Bool
  | .single d => c == d
  | .range low high => low ≤ c && c ≤ high

/-- Whether a character fits one part of a pattern. -/
def fitsOne (c : Char) : WildcardPart → Bool
  | .literal d => c == d
  | .anyOne => true
  | .anyMany => false
  | .oneOf isNegated items => items.any (SetItem.holds c) != isNegated

/-- The ends of a text, the longest first. -/
def tails : List Char → List (List Char)
  | [] => [[]]
  | c :: cs => (c :: cs) :: tails cs

/-- Whether parts fit a text as a whole. -/
def fits : List WildcardPart → List Char → Bool
  | [], cs => cs.isEmpty
  | .anyMany :: ps, cs => (tails cs).any fun rest => fits ps rest
  | p :: ps, cs =>
    match cs with
    | c :: cs => fitsOne c p && fits ps cs
    | [] => false

/-- Whether a pattern fits a text. -/
def accepts (w : Wildcard) (s : String) : Bool := fits w.parts s.toList

end Wildcard

end SourceMigration
