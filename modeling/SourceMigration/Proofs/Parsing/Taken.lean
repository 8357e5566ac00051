import Mathlib.Tactic.SplitIfs
import SourceMigration.Proofs.Parsing.Laws

/-!
# SourceMigration — tokens taken from a text

A conversion makes a token of each lexeme and takes it, with the trivia before it, from the text. Where
lexemes stand one after another in a text, their tokens can be taken one after another, up to the marker of
the end, and nothing of the text is left over.

What a conversion does with the tokens that it takes is told apart from the taking: `Reads` says of a
conversion which lexemes it takes and what it makes of their tokens, and its rules follow the conversion
step by step.

## Results

* `exists_taken`            — the tokens of a text are taken from it, and its end.
* `Reads.bind`, `reads_token` — what one step makes, and what is made of it.
-/

namespace SourceMigration

open Concrete (Laid Spells)
open Layout (Trivia Cut Spelled Ends addTrivia lastLine)

/-- The line of a token is one more than the number of line feeds before its spelling, and its column one
more than the number of bytes behind the last of them. -/
def Token.StandsBehind (t : Token) (before : List Char) : Prop :=
  t.line = 1 + before.count '\n' ∧ t.column = 1 + Text.byteLength (lastLine before)

namespace TreeBuilder

variable {source : List Char}

-- ---------------------------------------------------------------------------
-- Taking tokens
-- ---------------------------------------------------------------------------

/-- A token that was made of a lexeme. -/
structure Made (n : Concrete) (t : Token) : Prop where
  spells : n.Spells t.text.toList
  kind_eq : t.kind = tokenKind n.type t.text.toList

/-- The tokens of some lexemes are taken from a text one after another, from one place on up to another. -/
inductive Taken (source : List Char) : Nat → List Concrete → List Token → Nat → Prop where
  | nil {offset : Nat} : Taken source offset [] [] offset
  | cons {offset mid stop : Nat} {n : Concrete} {ns : List Concrete} {t : Token} {ts : List Token}
      (hToken : token source n offset = some (t, mid)) (hMade : Made n t) (h : Taken source mid ns ts stop) :
      Taken source offset (n :: ns) (t :: ts) stop

theorem Taken.append_inv {ns ms : List Concrete} {offset stop : Nat} {ts : List Token}
    (h : Taken source offset (ns ++ ms) ts stop) :
    ∃ us vs mid, ts = us ++ vs ∧ Taken source offset ns us mid ∧ Taken source mid ms vs stop := by
  induction ns generalizing offset ts with
  | nil => exact ⟨[], ts, offset, rfl, .nil, h⟩
  | cons n ns ih =>
    cases h with
    | cons hToken hMade h =>
      obtain ⟨us, vs, mid, rfl, hFirst, hSecond⟩ := ih h
      exact ⟨_ :: us, vs, mid, rfl, .cons hToken hMade hFirst, hSecond⟩

theorem Taken.made {ns : List Concrete} {offset stop : Nat} {ts : List Token}
    (h : Taken source offset ns ts stop) : ∀ t ∈ ts, ∃ n, Made n t := by
  induction h with
  | nil => simp
  | cons _ hMade _ ih =>
    intro t ht
    rcases List.mem_cons.mp ht with rfl | ht
    · exact ⟨_, hMade⟩
    · exact ih t ht

-- ---------------------------------------------------------------------------
-- Tokens of a text
-- ---------------------------------------------------------------------------

/-- Tokens of a text that goes on behind what is before it, each of which tells where its spelling stands. -/
def Placed : List Char → List Token → Prop
  | _, [] => True
  | before, t :: ts =>
    t.StandsBehind (before ++ t.leading.toList) ∧ Placed (before ++ t.source.toList) ts

/-- The token of a lexeme is cut from the text, with what stands before it since the last token. -/
theorem token_eq {front held spelling back : List Char} {n : Concrete}
    (hSource : source = front ++ held ++ spelling ++ back)
    (hStands : n.info.StandsAt (front ++ held) spelling) :
    token source n (Text.byteLength front) =
      some (⟨tokenKind n.type spelling, String.ofList spelling, String.ofList held, n.info.row + 1,
        n.info.column + 1⟩, Text.byteLength (front ++ held ++ spelling)) := by
  have hLeading : Text.slice? source (Text.byteLength front) n.info.start = some held := by
    rw [hSource, List.append_assoc _ spelling back]
    exact Text.slice_append rfl (by rw [hStands.start, Text.byteLength_append])
  have hSpelling : Text.slice? source n.info.start n.info.stop = some spelling := by
    rw [hSource]
    exact Text.slice_append hStands.start (by rw [hStands.start, hStands.stop])
  have hStop : n.info.stop = Text.byteLength (front ++ held ++ spelling) := by
    rw [hStands.stop, Text.byteLength_append _ spelling]
  rw [← hStop]
  simp [token, hLeading, hSpelling]

theorem endMarker_eq {front tail : List Char} (hSource : source = front ++ tail) :
    endMarker source (Text.byteLength front) =
      some (⟨.endOfText, "", String.ofList tail, 0, 0⟩, Text.byteLength source) := by
  have hLeading : Text.slice? source (Text.byteLength front) (Text.byteLength source) = some tail := by
    have hEnd : source = front ++ tail ++ [] := by rw [hSource, List.append_nil]
    rw [hEnd]
    exact Text.slice_append rfl (by simp)
  simp [endMarker, hLeading]

theorem source_toList (t : Token) : t.source.toList = t.leading.toList ++ t.text.toList := by
  simp [Token.source]

theorem placed_append_inv {before : List Char} {us vs : List Token} (h : Placed before (us ++ vs)) :
    Placed (before ++ (sourceOf us).toList) vs := by
  induction us generalizing before with
  | nil => simpa [sourceOf, String.join] using h
  | cons u us ih =>
    have hSource : (sourceOf (u :: us)).toList = u.source.toList ++ (sourceOf us).toList := by
      simp [sourceOf, String.join_cons]
    rw [hSource, ← List.append_assoc]
    exact ih h.2

theorem toList_sourceOf_cons (t : Token) (ts : List Token) :
    (sourceOf (t :: ts)).toList = t.leading.toList ++ t.text.toList ++ (sourceOf ts).toList := by
  simp [sourceOf, String.join_cons, source_toList]

/-- The token of a spelling with nothing but trivia before it. -/
theorem spelled_of_spells {n : Concrete} {gap spelling : List Char} (kind : TokenKind) (line column : Nat)
    (hKind : kind ≠ .endOfText) (hGap : Trivia false gap) (hSpells : n.Spells spelling) :
    Spelled ⟨kind, String.ofList spelling, String.ofList gap, line, column⟩ where
  kind_ne := hKind
  text_ne hEq := hSpells.firm.ne_nil (by simpa using congrArg String.toList hEq)
  trivia := by simpa using hGap

theorem tokenKind_ne_endOfText (type : String) (spelling : List Char) :
    tokenKind type spelling ≠ .endOfText := by
  unfold tokenKind
  split_ifs <;> simp

/-- The tokens of some lexemes that stand in a text, and the marker of its end, are taken from the text one
after another. Text that is held back stands before the trivia of the first of them. -/
theorem exists_taken {before rest : List Char} {ns : List Concrete} (h : Laid before rest ns)
    {front held : List Char} (hBefore : before = front ++ held) (hSource : source = before ++ rest) :
    ∃ us e ts e' mid, Taken source (Text.byteLength front) ns ts mid ∧
      endMarker source mid = some (e', Text.byteLength source) ∧ Cut (us ++ [e]) ∧
      ts ++ [e'] = addTrivia (String.ofList held) (us ++ [e]) ∧
      (sourceOf (ts ++ [e'])).toList = held ++ rest ∧ Placed front ts := by
  induction h generalizing front held with
  | @nil before rest hRest =>
    refine ⟨[], ⟨.endOfText, "", String.ofList rest, 0, 0⟩, [], _, _, .nil,
      endMarker_eq (by rw [hSource, hBefore, List.append_assoc]), ?_, ?_, ?_, trivial⟩
    · exact .last ⟨rfl, rfl, by simpa using hRest⟩
    · simp [addTrivia, Token.withLeading]
    · simp [sourceOf, Token.source, String.join]
  | @cons before gap spelling rest n ns hGap hSpells hStands _ ih =>
    subst hBefore
    have hSource' : source = (front ++ held ++ gap ++ spelling) ++ rest := by
      rw [hSource]
      simp only [List.append_assoc]
    obtain ⟨us, e, ts, e', mid, hTaken, hEnd, hCut, hTokens, hText, hPlaced⟩ :=
      ih (List.append_nil (front ++ held ++ gap ++ spelling)).symm hSource'
    have hToken := token_eq (hSource'.trans (by rw [List.append_assoc front]))
      (List.append_assoc front held gap ▸ hStands)
    have hSame : addTrivia (String.ofList []) (us ++ [e]) = us ++ [e] := by
      cases us <;> simp [addTrivia, Token.withLeading]
    rw [hSame] at hTokens
    refine ⟨_ :: us, e, _ :: ts, e', mid, .cons hToken ⟨by simpa using hSpells, by simp⟩
      (by rwa [← List.append_assoc front]), hEnd, .cons (spelled_of_spells
        (tokenKind n.type spelling) (n.info.row + 1) (n.info.column + 1) (tokenKind_ne_endOfText _ _) hGap
        hSpells) hCut, ?_, ?_, ?_, ?_⟩
    · simp [addTrivia, Token.withLeading, hTokens]
    · rw [List.cons_append, toList_sourceOf_cons, hText]
      simp
    · simp [Token.StandsBehind, hStands.row, hStands.column, Nat.add_comm]
    · simpa [source_toList] using hPlaced

/-- The first of the lexemes in a text are taken up to where the others go on. -/
theorem exists_split {before rest : List Char} {ns ms : List Concrete} (h : Laid before rest (ns ++ ms))
    (hSource : source = before ++ rest) :
    ∃ part rest' ts, rest = part ++ rest' ∧ Laid (before ++ part) rest' ms ∧
      Taken source (Text.byteLength before) ns ts (Text.byteLength (before ++ part)) ∧
      (sourceOf ts).toList = part := by
  induction ns generalizing before rest with
  | nil => exact ⟨[], rest, [], rfl, by simpa using h, by simpa using Taken.nil,
      by simp [sourceOf, String.join]⟩
  | cons n ns ih =>
    cases h with
    | @cons _ gap spelling rest _ _ hGap hSpells hStands h =>
      have hSource' : source = before ++ gap ++ spelling ++ rest := by
        rw [hSource]
        simp only [List.append_assoc]
      obtain ⟨part, rest', ts, rfl, hLaid, hTaken, hText⟩ := ih h hSource'
      refine ⟨gap ++ spelling ++ part, rest', _, by simp only [List.append_assoc], by
        simpa only [List.append_assoc] using hLaid, .cons (token_eq hSource' hStands)
        ⟨by simpa using hSpells, by simp⟩ (by simpa only [List.append_assoc] using hTaken), ?_⟩
      rw [toList_sourceOf_cons, hText]
      simp

/-- Taking tokens ends where the last lexeme does. -/
theorem Taken.stop_eq {ns : List Concrete} {offset stop : Nat} {ts : List Token} {m : Concrete}
    (h : Taken source offset ns ts stop) (hLast : ns.getLast? = some m) : stop = m.info.stop := by
  induction h with
  | nil => cases hLast
  | @cons offset mid stop n ns t ts hToken _ h ih =>
    cases ns with
    | nil =>
      cases h
      obtain rfl : n = m := by simpa using hLast
      obtain ⟨leading, -, hToken⟩ := Option.bind_eq_some_iff.mp hToken
      obtain ⟨spelling, -, hToken⟩ := Option.bind_eq_some_iff.mp hToken
      exact (Prod.mk.inj (Option.some.inj hToken)).2.symm
    | cons d ns => exact ih (by simpa using hLast)

-- ---------------------------------------------------------------------------
-- What conversions read
-- ---------------------------------------------------------------------------

/-- Wherever the tokens of some lexemes can be taken, a conversion takes them, and what it makes of them is
as said. -/
def Reads (source : List Char) {α : Type} (x : Conversion α) (ns : List Concrete)
    (Q : α → List Token → Prop) : Prop :=
  ∀ offset ts stop, Taken source offset ns ts stop → ∃ v, x offset = some (v, stop) ∧ Q v ts

section Rules

variable {α β : Type} {x : Conversion α} {f : α → Conversion β} {ns ms : List Concrete}
  {P P' : α → List Token → Prop} {Q : β → List Token → Prop}

theorem Reads.mono (h : Reads source x ns P) (hImp : ∀ v ts, P v ts → P' v ts) : Reads source x ns P' := by
  intro offset ts stop hTaken
  obtain ⟨v, hv, hP⟩ := h offset ts stop hTaken
  exact ⟨v, hv, hImp v ts hP⟩

/-- What a conversion makes is what it makes at some place. -/
theorem Reads.made (h : Reads source x ns P) :
    Reads source x ns fun v ts => P v ts ∧
      ∃ offset stop, Taken source offset ns ts stop ∧ x offset = some (v, stop) := by
  intro offset ts stop hTaken
  obtain ⟨v, hv, hP⟩ := h offset ts stop hTaken
  exact ⟨v, hv, hP, offset, stop, hTaken, hv⟩

theorem reads_pure {v : α} (h : P v []) : Reads source (pure v) [] P := by
  intro offset ts stop hTaken
  cases hTaken
  exact ⟨v, rfl, h⟩

/-- What is asked for and is there takes nothing. -/
theorem lift_some_bind (v : α) (f : α → Conversion β) : (liftM (some v) >>= f) = f v := rfl

/-- One conversion after another takes the lexemes of both. -/
theorem Reads.bind (hx : Reads source x ns P)
    (hf : ∀ v ts, P v ts → Reads source (f v) ms fun w us => Q w (ts ++ us)) :
    Reads source (x >>= f) (ns ++ ms) Q := by
  intro offset ts stop hTaken
  obtain ⟨us, vs, mid, rfl, hFirst, hSecond⟩ := hTaken.append_inv
  obtain ⟨v, hv, hP⟩ := hx offset us mid hFirst
  obtain ⟨w, hw, hQ⟩ := hf v us hP mid vs stop hSecond
  refine ⟨w, ?_, hQ⟩
  change (x offset).bind (fun p => f p.1 p.2) = _
  rw [hv, Option.bind_some, hw]

/-- What is made of the result of a conversion takes nothing more. -/
theorem Reads.bind_pure {g : α → β} (hx : Reads source x ns P) (hg : ∀ v ts, P v ts → Q (g v) ts) :
    Reads source (x >>= fun v => pure (g v)) ns Q := by
  have h : Reads source (x >>= fun v => pure (g v)) (ns ++ []) Q := hx.bind fun v ts hv =>
    reads_pure (by rw [List.append_nil]; exact hg v ts hv)
  rwa [List.append_nil] at h

theorem Reads.map {g : α → β} (hx : Reads source x ns P) (hg : ∀ v ts, P v ts → Q (g v) ts) :
    Reads source (g <$> x) ns Q := by
  rw [map_eq_pure_bind]
  exact hx.bind_pure hg

end Rules

/-- A lexeme becomes its token. -/
theorem reads_token (n : Concrete) : Reads source (token source n) [n] fun t ts => ts = [t] ∧ Made n t := by
  intro offset ts stop hTaken
  cases hTaken with
  | cons hToken hMade h =>
    cases h
    exact ⟨_, hToken, rfl, hMade⟩

end TreeBuilder

end SourceMigration
