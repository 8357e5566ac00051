import SourceMigration.Proofs.Tree.Fronted
import SourceMigration.Text.Blank

/-!
# SourceMigration — what is true of every token

An edit moves trivia from one token to another, writes other spellings, and makes new names and imports.
A property of tokens outlasts that if it asks something of the trivia and something of the spelling, and
of neither in view of the other. `Durable` says so, with what it asks of each, and then the property is
true of every token of the tree after the edit if it was before.

## Results

* `each_branch`       — the tokens of a node are those of its children.
* `Each.withLeading`  — other trivia before a node.
* `each_importOf`     — a new import.
* `each_mapLeaves`    — an edit of names and calls.
-/

namespace SourceMigration

/-- A property of tokens that asks `L` of trivia, and that a spelling with `W` has behind any of these. -/
structure Durable (P : Token → Prop) (L W : String → Prop) : Prop where
  leading : ∀ {t}, P t → L t.leading
  withLeading : ∀ {t : Token} {l l'}, P (t.withLeading l) → L l' → P (t.withLeading l')
  withText : ∀ {t : Token} {w}, P t → W w → P (t.withText w)
  fresh : ∀ {kind w l line column}, kind ≠ .endOfText → W w → L l → P ⟨kind, w, l, line, column⟩
  noTrivia : L ""
  blank : L " "
  /-- The blanks that some trivia begin with, before what others hold behind theirs. -/
  respaced : ∀ {l m}, L l → L m → L (Text.leadingBlank l ++ Text.dropBlank m)
  dot : W "."
  importWord : W "import"
  semicolon : W ";"

namespace Durable

variable {P : Token → Prop} {L W : String → Prop} (hP : Durable P L W)

include hP

theorem leadingBlank {l : String} (hl : L l) : L (Text.leadingBlank l) := by
  have hAll := hP.respaced hl hP.noTrivia
  rwa [show Text.dropBlank "" = "" from rfl, String.append_empty] at hAll

end Durable

namespace Node

/-- Something is true of every token of a node. -/
def Each (P : Token → Prop) (n : Node) : Prop := ∀ t ∈ n.tokens, P t

variable {P : Token → Prop} {L W : String → Prop} {n : Node}

theorem each_token {t : Token} : (Node.token t).Each P ↔ P t := by
  simp [Each, tokens]

/-- The tokens of a node are those of its children. -/
theorem each_branch {k : NodeKind} {cs : List (Field × Node)} :
    (Node.branch k cs).Each P ↔ ∀ c ∈ cs, c.2.Each P := by
  unfold Each
  rw [tokens, tokensOf_eq]
  simp only [List.mem_flatMap]
  refine ⟨fun h c hc t ht => h t ⟨c, hc, ht⟩, fun h t hMem => ?_⟩
  obtain ⟨c, hc, ht⟩ := hMem
  exact h c hc t ht

/-- An edit of names and calls that keeps what is true of every token of each of them. -/
def KeepsEach (P : Token → Prop) (f : Node → Node) : Prop :=
  ∀ {k : NodeKind} {cs : List (Field × Node)}, k.isLeaf = true → (branch k cs).WellFormed →
    (branch k cs).Each P → (f (.branch k cs)).Each P

/-- An edit of names and calls. -/
theorem each_mapLeaves {f : Node → Node} (hf : KeepsEach P f) (h : n.WellFormed) (hEach : n.Each P) :
    (n.mapLeaves f).Each P := by
  induction h with
  | token t => exact hEach
  | @branch k cs hFills hChildren ih =>
    by_cases hk : k.isLeaf = true
    · rw [mapLeaves_leaf hk]
      exact hf hk (.branch hFills hChildren) hEach
    · rw [each_branch] at hEach
      rw [mapLeaves_branch (by simpa using hk), each_branch]
      intro c hc
      obtain ⟨d, hd, rfl⟩ := List.mem_map.mp hc
      exact ih d hd (hEach d hd)

section Edits

variable (hP : Durable P L W)

include hP

theorem Each.leading (h : n.Each P) : L n.leading := by
  unfold Node.leading
  cases hTokens : n.tokens with
  | nil => exact hP.noTrivia
  | cons t ts => exact hP.leading (h t (hTokens ▸ List.mem_cons_self))

/-- Other trivia before a node. -/
theorem Each.withLeading {l l' : String} (h : (n.withLeading l).Each P) (hl : L l') :
    (n.withLeading l').Each P := by
  by_cases hFront : n.Fronted
  · obtain ⟨t, ts, hTokens⟩ := hFront.exists_tokens
    unfold Each at h ⊢
    rw [hTokens] at h ⊢
    rw [List.forall_mem_cons] at h ⊢
    exact ⟨hP.withLeading h.1 hl, h.2⟩
  · rw [withLeading_of_not_fronted hFront] at h ⊢
    exact h

theorem Each.refront {l : String} (h : n.Each P) (hl : L l) : (n.withLeading l).Each P := by
  obtain ⟨l', hSelf⟩ := n.exists_withLeading_eq_self
  exact Each.withLeading (l := l') hP (hSelf.symm ▸ h) hl

theorem each_nameTokens {l : String} {parts : List String} (hParts : ∀ part ∈ parts, W part) (hl : L l) :
    ∀ t ∈ nameTokens l parts, P t := by
  have hWord {part : String} (h : W part) {l : String} (hl : L l) : P (Token.identifier part l) :=
    hP.fresh (by simp) h hl
  have hDot : P (Token.operator ".") := hP.fresh (by simp) hP.dot hP.noTrivia
  induction parts generalizing l with
  | nil => simp [nameTokens]
  | cons part parts ih =>
    obtain ⟨hPart, hRest⟩ := List.forall_mem_cons.mp hParts
    cases parts with
    | nil => simpa [nameTokens] using hWord hPart hl
    | cons p ps =>
      rw [nameTokens, List.forall_mem_cons, List.forall_mem_cons]
      · exact ⟨hWord hPart hl, hDot, ih hRest hP.noTrivia⟩
      · simp

theorem each_ofDotted {dotted l : String} {type : Option TypeName}
    (hParts : ∀ part ∈ Text.splitDots dotted, W part) (hl : L l) : (ofDotted dotted l type).Each P := by
  rw [ofDotted, each_branch]
  intro c hc
  obtain ⟨t, ht, rfl⟩ := List.mem_map.mp hc
  exact each_token.mpr (each_nameTokens hP hParts hl t ht)

/-- A new import. -/
theorem each_importOf {t : TypeName} {l : String} (ht : ∀ part ∈ Text.splitDots t.text, W part) (hl : L l) :
    (importOf t l).Each P := by
  have hWord : P (Token.keyword "import" l) := hP.fresh (by simp) hP.importWord hl
  have hEnd : P (Token.operator ";") := hP.fresh (by simp) hP.semicolon hP.noTrivia
  rw [importOf, each_branch]
  simp only [List.forall_mem_cons, each_token]
  exact ⟨hWord, each_ofDotted hP ht hP.blank, hEnd, by simp⟩

end Edits

end Node

end SourceMigration
