import SourceMigration.Parsing.Concrete
import SourceMigration.StandIn.Java.Grammar
import SourceMigration.StandIn.Java.Scan
import SourceMigration.Text.Blank

/-!
# SourceMigration — errors, for the library that stands in

Which units there are, and what error is found in a text that is none. A refused text is blamed on the
first token that no reading gets past, or that stands apart from a sign it would be joined to. If the
text would be a unit with a semicolon or a closing bracket before that token, the bracket is missing,
right after the token before; otherwise the shortest run of tokens from there on without which the text
would be a unit is an error.
-/

namespace SourceMigration.StandIn

/-- Fuel for reading a list of tokens: more than patterns can nest over so many tokens. -/
def fuelFor (ts : List Token) : Nat := 400 * (ts.length + 1)

/-- Reads the given pattern from the whole of a list of tokens. What is read must have all their
trivia, or else signs were joined that stand apart. -/
def readAll? (p : Grammar.P) (ts : List Token) : Option (List (Field × Node)) :=
  match p.read? Grammar.rules (fuelFor ts) ts with
  | some (xs, []) => if triviaOf (Node.tokensOf xs) = triviaOf ts then some xs else none
  | _ => none

/-- The parts of the unit that a list of tokens spells out, if there is one. -/
def unitOf? (ts : List Token) : Option (List (Field × Node)) := readAll? Grammar.unit ts

/-- The position of the first token whose trivia the tokens that were read leave out. -/
def apartPosition (read ts : List Token) : Nat :=
  let source := (sourceOf read).toList
  ((List.range ts.length).find? fun k => !(sourceOf (ts.take (k + 1))).toList.isPrefixOf source).getD 0

/-- The position of the first token that no reading gets past, or, if a reading gets past all,
of the first that stands apart from a sign it would be joined to. -/
def blamedPosition (ts : List Token) : Nat :=
  match Grammar.unit.read? Grammar.rules (fuelFor ts) ts with
  | some (xs, []) => apartPosition (Node.tokensOf xs) ts
  | _ =>
    match Pattern.reach? Grammar.rules (fuelFor ts) Grammar.unit ts with
    | some left => ts.length - left
    | none => 0

/-- The signs that are looked for when something is missing. -/
def closingSigns : List String := [";", ")", "\x7d"]

/-- How many of one sign are tried in a row at the end of a text. -/
def closingAttempts : List Nat := [1, 2, 3, 4, 5, 6, 7, 8]

/-- The sign, if any, whose presence before position `k` would make the tokens a unit. -/
def missingAt? (ts : List Token) (k : Nat) : Option String :=
  closingSigns.find? fun s => closingAttempts.any fun n =>
    -- Several are missing only where the text ends before they could come.
    (n == 1 || k + 1 == ts.length) &&
      (unitOf? (ts.take k ++ List.replicate n (Token.operator s) ++ ts.drop k)).isSome

/-- The shortest run of tokens from position `k` on without which the tokens are a unit. -/
def extraAt? (ts : List Token) (k : Nat) : Option (List Token) :=
  ((List.range (ts.length - 1 - k)).find? fun n =>
      (unitOf? (ts.take k ++ ts.drop (k + n + 1))).isSome).map fun n => (ts.drop k).take (n + 1)

/-- The node for the error in tokens that are no unit. -/
def errorNode (ts : List Token) : Concrete :=
  let k := blamedPosition ts
  let before := (sourceOf (ts.take k)).utf8ByteSize
  match missingAt? ts k with
  | some s =>
    -- Right after the token before, not where the next one begins.
    let place := ((ts.take k).getLast?.map fun t =>
      (Scan.Place.mk t.line t.column).after t.text.toList).getD {}
    .node ⟨s, 1, false, true, before, before, place.line - 1, place.column - 1⟩ []
  | none =>
    let at' := ts[k]?
    let source := sourceOf ((extraAt? ts k).getD at'.toList)
    let start := before + (Text.leadingBlank source).utf8ByteSize
    let place : Scan.Place := (at'.map fun t => ⟨t.line, t.column⟩).getD {}
    .node ⟨"ERROR", 1, true, false, start, start + (Text.strip source).utf8ByteSize, place.line - 1,
      place.column - 1⟩ []

end SourceMigration.StandIn
