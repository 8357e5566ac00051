import SourceMigration.Tree.Node

/-!
# SourceMigration — patterns over tokens, for the library that stands in

A grammar is a pattern for each of its rules. A pattern reads tokens from the front of a
list and yields children of a syntax tree: terminals yield the token they read, and
`node` and `inField` gather and file what is below them. Choice is ordered and repetition
is greedy, so a pattern reads a list of tokens in at most one way.

A pattern asks for kinds and spellings of tokens only, never for trivia.
Where signs are joined, the trivia between them are missing in what was read, and whoever asks
for a reading has to see to it that there were none.
-/

namespace SourceMigration.StandIn

/-- A single token that a pattern asks for. -/
inductive Terminal where
  | identifier
  /-- A word in the role of a keyword, reserved or not. -/
  | word (text : String)
  | sign (text : String)
  | literal (kind : TokenKind)
  deriving DecidableEq, Repr

/-- The token in the role that the terminal gives it, if it is one that the terminal asks for. -/
def Terminal.read? : Terminal → Token → Option Token
  | .identifier, t => if t.kind = .identifier then some t else none
  | .word text, t =>
    if (t.kind = .identifier ∨ t.kind = .keyword) ∧ t.text = text then some { t with kind := .keyword }
    else none
  | .sign text, t => if t.kind = .operator ∧ t.text = text then some t else none
  | .literal kind, t => if t.kind = kind then some t else none

/-- A pattern over tokens, with references to the rules of a grammar. -/
inductive Pattern (ρ : Type) where
  | empty
  | terminal (t : Terminal)
  /-- Tokens that are read as one token of the given kind. -/
  | glued (kind : TokenKind) (texts : List String)
  | seq (p q : Pattern ρ)
  /-- The second pattern, where the first does not match. -/
  | orElse (p q : Pattern ρ)
  /-- As many in a row as there are. -/
  | many (p : Pattern ρ)
  /-- Matches where `p` does, and reads nothing. -/
  | ahead (p : Pattern ρ)
  /-- Matches where `p` does not, and reads nothing. -/
  | notAhead (p : Pattern ρ)
  /-- Files the children that `p` yields under `f`. -/
  | inField (f : Field) (p : Pattern ρ)
  /-- Gathers the children that `p` yields into one node. -/
  | node (kind : NodeKind) (p : Pattern ρ)
  | rule (r : ρ)

namespace Pattern

variable {ρ : Type}

instance : Append (Pattern ρ) := ⟨.seq⟩

instance : OrElse (Pattern ρ) := ⟨fun p q => .orElse p (q ())⟩

/-- The pattern, or nothing. -/
def maybe (p : Pattern ρ) : Pattern ρ := p <|> .empty

/-- One or more in a row. -/
def oneOrMore (p : Pattern ρ) : Pattern ρ := p ++ .many p

/-- One or more, with a separator between each two. -/
def separated (separator p : Pattern ρ) : Pattern ρ := p ++ .many (separator ++ p)

/-- The first of several patterns that matches. -/
def oneOf : List (Pattern ρ) → Pattern ρ
  | [] => .notAhead .empty
  | [p] => p
  | p :: ps => p <|> oneOf ps

/-- An identifier. -/
def identifier : Pattern ρ := .terminal .identifier

/-- A word in the role of a keyword. -/
def word (text : String) : Pattern ρ := .terminal (.word text)

/-- A sign. -/
def sign (text : String) : Pattern ρ := .terminal (.sign text)

/-- A literal. -/
def literal (kind : TokenKind) : Pattern ρ := .terminal (.literal kind)

/-- Any of several words. -/
def words (texts : List String) : Pattern ρ := oneOf (texts.map word)

/-- Any of several signs. -/
def signs (texts : List String) : Pattern ρ := oneOf (texts.map sign)

/-! ## Reading -/

/-- What a pattern yields: children for a node, and the tokens after them. -/
abbrev Reading := List (Field × Node) × List Token

/-- The spelling of tokens that follow one another, without the trivia between them. -/
def gluedRest? : List String → List Token → Option (String × List Token)
  | [], ts => some ("", ts)
  | _ :: _, [] => none
  | s :: ss, t :: ts =>
    if t.text = s ∧ (t.kind = .operator ∨ t.kind = .identifier) then
      (gluedRest? ss ts).map fun (spelling, rest) => (t.text ++ spelling, rest)
    else none

/-- One token for several that follow one another. -/
def glue? (kind : TokenKind) : List String → List Token → Option (Token × List Token)
  | s :: ss, t :: ts =>
    if t.text = s ∧ (t.kind = .operator ∨ t.kind = .identifier) then
      (gluedRest? ss ts).map fun (spelling, rest) =>
        ({ t with kind, text := t.text ++ spelling }, rest)
    else none
  | _, _ => none

/-- Reads a pattern at the front of a list of tokens. The fuel bounds how deep patterns nest. -/
def read? (rules : ρ → Pattern ρ) : Nat → Pattern ρ → List Token → Option Reading
  | 0, _, _ => none
  | fuel + 1, p, ts =>
    match p with
    | .empty => some ([], ts)
    | .terminal t =>
      match ts with
      | [] => none
      | x :: rest => (t.read? x).map fun y => ([(.elements, .token y)], rest)
    | .glued kind texts => (glue? kind texts ts).map fun (t, rest) => ([(.elements, .token t)], rest)
    | .seq p q =>
      match read? rules fuel p ts with
      | none => none
      | some (xs, rest) => (read? rules fuel q rest).map fun (ys, rest) => (xs ++ ys, rest)
    | .orElse p q =>
      match read? rules fuel p ts with
      | none => read? rules fuel q ts
      | some r => some r
    | .many p =>
      match read? rules fuel p ts with
      | none => some ([], ts)
      | some (xs, rest) =>
        -- A turn that yields nothing would go on for ever.
        if xs.isEmpty then some ([], ts)
        else (read? rules fuel (.many p) rest).map fun (ys, rest) => (xs ++ ys, rest)
    | .ahead p => (read? rules fuel p ts).map fun _ => ([], ts)
    | .notAhead p =>
      match read? rules fuel p ts with
      | none => some ([], ts)
      | some _ => none
    -- What was filed below keeps its place; only the role in the parent is new.
    | .inField f p =>
      (read? rules fuel p ts).map fun (xs, rest) => (xs.map fun x => (f, x.2), rest)
    | .node kind p =>
      (read? rules fuel p ts).map fun (xs, rest) => ([(.elements, .branch kind xs)], rest)
    | .rule r => read? rules fuel (rules r) ts

/-- The fewest tokens that were left when a terminal was refused, if any was. It tells how
far a reading came, also when it fails. -/
def reach? (rules : ρ → Pattern ρ) : Nat → Pattern ρ → List Token → Option Nat
  | 0, _, _ => none
  | fuel + 1, p, ts =>
    let nearer : Option Nat → Option Nat → Option Nat
      | none, b => b
      | a, none => a
      | some a, some b => some (min a b)
    match p with
    | .empty => none
    | .terminal t =>
      match ts with
      | [] => some 0
      | x :: _ => if (t.read? x).isSome then none else some ts.length
    | .glued kind texts => if (glue? kind texts ts).isSome then none else some ts.length
    | .seq p q =>
      match read? rules fuel p ts with
      | none => reach? rules fuel p ts
      -- A repetition at the end of `p` may have come further than `p` did.
      | some (_, rest) => nearer (reach? rules fuel p ts) (reach? rules fuel q rest)
    | .orElse p q =>
      match read? rules fuel p ts with
      | none => nearer (reach? rules fuel p ts) (reach? rules fuel q ts)
      | some _ => reach? rules fuel p ts
    | .many p =>
      match read? rules fuel p ts with
      | none => reach? rules fuel p ts
      | some (xs, rest) =>
        if xs.isEmpty then none
        else nearer (reach? rules fuel p ts) (reach? rules fuel (.many p) rest)
    | .ahead _ => none
    | .notAhead _ => none
    | .inField _ p => reach? rules fuel p ts
    | .node _ p => reach? rules fuel p ts
    | .rule r => reach? rules fuel (rules r) ts

end Pattern

end SourceMigration.StandIn
