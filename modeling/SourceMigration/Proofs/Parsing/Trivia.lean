import SourceMigration.Text.Gap
import SourceMigration.Tree.Token

/-!
# SourceMigration — what stands between tokens

A character of a text could be hidden: put into the trivia of a token although it is no blank and
belongs to no comment. `Trivia` says what may stand between two spellings, and `Cut` what a list of
tokens is that takes a whole text apart: spellings with nothing but trivia before each, and the end
marker last.

A comment up to the end of its line needs the line feed after it, or else the next spelling would belong
to the comment; only before the end of the text may the line feed be absent.

## Results

* `exists_of_commentTail` — a comment ends with the first end mark in it.
-/

namespace SourceMigration.Layout

-- ---------------------------------------------------------------------------
-- Trivia
-- ---------------------------------------------------------------------------

/-- Blanks and complete comments. `atEnd` tells that nothing follows them. -/
inductive Trivia (atEnd : Bool) : List Char → Prop where
  | nil : Trivia atEnd []
  | gap {c : Char} {cs : List Char} (hGap : Text.isGap c = true) (h : Trivia atEnd cs) :
      Trivia atEnd (c :: cs)
  /-- A comment up to the end of its line. -/
  | lineComment {body cs : List Char} (hBody : '\n' ∉ body)
      (hEnd : cs.head? = some '\n' ∨ (cs = [] ∧ atEnd = true)) (h : Trivia atEnd cs) :
      Trivia atEnd ('/' :: '/' :: (body ++ cs))
  /-- A comment up to the first end mark after its beginning. -/
  | blockComment {body cs : List Char} (hBody : ¬ ['*', '/'] <:+: body ++ ['*'])
      (h : Trivia atEnd cs) :
      Trivia atEnd ('/' :: '*' :: (body ++ '*' :: '/' :: cs))

/-- A comment ends with the first end mark in it. -/
theorem exists_of_commentTail {cs : List Char} {n : Nat} (h : Text.commentTail? cs = some n) :
    ∃ body rest, cs = body ++ '*' :: '/' :: rest ∧ n = body.length + 2 ∧
      ¬ ['*', '/'] <:+: body ++ ['*'] := by
  fun_induction Text.commentTail? cs generalizing n with
  | case1 => cases h
  | case2 rest =>
    refine ⟨[], rest, rfl, (Option.some.inj h).symm, ?_⟩
    intro hInfix
    have := hInfix.length_le
    simp at this
  | case3 c cs hNot ih =>
    obtain ⟨m, hm, rfl⟩ := Option.map_eq_some_iff.mp h
    obtain ⟨body, rest, rfl, rfl, hBody⟩ := ih hm
    refine ⟨c :: body, rest, rfl, by simp, ?_⟩
    intro hInfix
    rw [List.cons_append, List.infix_cons_iff] at hInfix
    rcases hInfix with ⟨tail, hTail⟩ | hLater
    · -- an end mark at the very front would have ended the comment there
      simp only [List.cons_append, List.nil_append, List.cons.injEq] at hTail
      obtain ⟨rfl, hTail⟩ := hTail
      cases body with
      | nil => simp at hTail
      | cons d body =>
        simp only [List.cons_append, List.cons.injEq] at hTail
        obtain ⟨rfl, -⟩ := hTail
        exact hNot (body ++ '*' :: '/' :: rest) rfl (by simp)
    · exact hBody hLater

-- ---------------------------------------------------------------------------
-- Piece by piece
-- ---------------------------------------------------------------------------

/-- The length of the blank or the comment that a text begins with. -/
def pieceLength? : List Char → Option Nat
  | '/' :: '/' :: r => some ((r.takeWhile (· != '\n')).length + 2)
  | '/' :: '*' :: r => (Text.commentTail? r).map (· + 2)
  | c :: _ => if Text.isGap c then some 1 else none
  | [] => none

-- ---------------------------------------------------------------------------
-- Tokens that take a text apart
-- ---------------------------------------------------------------------------

/-- A token with a spelling of its own and nothing but trivia before it. -/
structure Spelled (t : Token) : Prop where
  kind_ne : t.kind ≠ .endOfText
  text_ne : t.text ≠ ""
  trivia : Trivia false t.leading.toList

/-- The marker of the end, with nothing but trivia before it. -/
structure Ends (t : Token) : Prop where
  kind_eq : t.kind = .endOfText
  text_eq : t.text = ""
  trivia : Trivia true t.leading.toList

/-- More trivia before the first token. -/
def addTrivia (more : String) : List Token → List Token
  | [] => []
  | t :: ts => t.withLeading (more ++ t.leading) :: ts

/-- Tokens with spellings, and after them one marker of the end. -/
inductive Cut : List Token → Prop where
  | last {e : Token} (h : Ends e) : Cut [e]
  | cons {t : Token} {ts : List Token} (h : Spelled t) (hs : Cut ts) : Cut (t :: ts)

/-- The same, where a mark of byte order may stand before all. -/
def Partition (ts : List Token) : Prop :=
  ∃ us, Cut us ∧ (ts = us ∨ ts = addTrivia (String.singleton Text.byteOrderMark) us)
-- ---------------------------------------------------------------------------
-- Spellings and places
-- ---------------------------------------------------------------------------

/-- Text that begins and ends with a sign that is no blank. -/
structure Firm (cs : List Char) : Prop where
  first : ∃ c, cs.head? = some c ∧ Text.isGap c = false
  last : ∃ c, cs.getLast? = some c ∧ Text.isGap c = false

theorem Firm.ne_nil {cs : List Char} (h : Firm cs) : cs ≠ [] := by
  rintro rfl
  obtain ⟨c, hFirst, -⟩ := h.first
  cases hFirst

/-- Text without a blank. -/
theorem firm_of_forall {cs : List Char} (hcs : cs ≠ []) (h : ∀ c ∈ cs, Text.isGap c = false) :
    Firm cs := by
  obtain ⟨c, ds, rfl⟩ := List.exists_cons_of_ne_nil hcs
  exact ⟨⟨c, rfl, h c (by simp)⟩,
    ⟨_, List.getLast?_eq_some_getLast hcs, h _ (List.getLast_mem hcs)⟩⟩

/-- What stands behind the last line feed of a text: all of it, if there is none. -/
def lastLine (cs : List Char) : List Char := (cs.reverse.takeWhile (· != '\n')).reverse

end SourceMigration.Layout
