/-!
# SourceMigration — spans of code points

The classes of characters that the library needs beyond the first 128 are tables of
spans of code points, as the Unicode character database gives them. A span may skip every
other code point, which is how the cased letters of many alphabets alternate.
-/

namespace SourceMigration.Text

/-- The code points `first`, `first + step`, and so on up to `last`. -/
structure Span where
  first : Nat
  last : Nat
  step : Nat
  deriving DecidableEq, Repr

/-- Whether a code point lies in a span. -/
def Span.contains (s : Span) (n : Nat) : Bool :=
  s.first ≤ n && n ≤ s.last && (n - s.first) % s.step == 0

/-- Whether a code point lies in one of the spans. -/
def inSpans (spans : List Span) (n : Nat) : Bool := spans.any (·.contains n)

end SourceMigration.Text
