import SourceMigration.Proofs.Tree.Comments
import SourceMigration.Proofs.Tree.Each

/-!
# SourceMigration — tokens that stay apart

A tree that was edited prints as text again. Its tokens are still found in that text only if no
comment runs into the spelling after it, and no spelling was lost in between: each token has a spelling
and nothing but trivia before it. Trivia may be moved to another token, put after more blanks,
or lose the blanks they begin with, and stay trivia.

The first token of a text is an exception, since a mark of byte order may stand before its trivia.

## Results

* `durable_spelled`    — to be spelled is a property that outlasts edits.
* `Clear.withLeading`  — other trivia before a node do no harm.
* `Tidy.handOver`      — a node may come before another and take over its trivia.
* `tidy_of_partition`  — the nodes of a text that is taken apart are tidy.
-/

namespace SourceMigration

-- ---------------------------------------------------------------------------
-- Trivia
-- ---------------------------------------------------------------------------

namespace Layout

/-- Trivia that a spelling may follow. -/
def Separates (l : String) : Prop := Trivia false l.toList

/-- What may stand before the first spelling of a text. -/
def Opens (l : String) : Prop :=
  Separates l ∨ ∃ m, Separates m ∧ l = String.singleton Text.byteOrderMark ++ m

/-- More blanks before trivia are trivia. -/
theorem Trivia.gaps {atEnd : Bool} {gaps cs : List Char} (hGaps : ∀ c ∈ gaps, Text.isGap c = true)
    (h : Trivia atEnd cs) : Trivia atEnd (gaps ++ cs) := by
  induction gaps with
  | nil => exact h
  | cons c gaps ih =>
    exact .gap (hGaps c List.mem_cons_self) (ih fun d hd => hGaps d (List.mem_cons_of_mem _ hd))

theorem isBlank_of_isGap {c : Char} (h : Text.isGap c = true) : Text.isBlank c = true := by
  simp only [Text.isGap, Bool.or_eq_true, beq_iff_eq] at h
  rcases h with ((((rfl | rfl) | rfl) | rfl) | rfl) | rfl <;> decide

/-- The blanks that trivia begin with are those that may stand between tokens. -/
theorem Trivia.leadingBlank {atEnd : Bool} {cs : List Char} (h : Trivia atEnd cs) :
    (∀ c ∈ Text.leadingBlankChars cs, Text.isGap c = true) ∧ Trivia atEnd (Text.dropBlankChars cs) := by
  have hSlash : Text.isBlank '/' = false := by decide
  unfold Text.leadingBlankChars Text.dropBlankChars
  induction h with
  | nil => exact ⟨by simp, .nil⟩
  | gap hGap _ ih =>
    rw [List.takeWhile_cons_of_pos (isBlank_of_isGap hGap),
      List.dropWhile_cons_of_pos (isBlank_of_isGap hGap)]
    exact ⟨List.forall_mem_cons.mpr ⟨hGap, ih.1⟩, ih.2⟩
  | lineComment hBody hEnd h =>
    rw [List.takeWhile_cons_of_neg (by simp [hSlash]), List.dropWhile_cons_of_neg (by simp [hSlash])]
    exact ⟨by simp, .lineComment hBody hEnd h⟩
  | blockComment hBody h =>
    rw [List.takeWhile_cons_of_neg (by simp [hSlash]), List.dropWhile_cons_of_neg (by simp [hSlash])]
    exact ⟨by simp, .blockComment hBody h⟩

/-- Blanks only, before any trivia. -/
def Blanks (l : String) : Prop := ∀ c ∈ l.toList, Text.isGap c = true

theorem Blanks.append {l m : String} (hl : Blanks l) (hm : Blanks m) : Blanks (l ++ m) := by
  intro c hc
  rw [String.toList_append] at hc
  exact (List.mem_append.mp hc).elim (hl c) (hm c)

theorem Blanks.separates {l m : String} (hl : Blanks l) (hm : Separates m) :
    Separates (l ++ m) := by
  rw [Separates, String.toList_append]
  exact hm.gaps hl

theorem separates_of_blanks {l : String} (h : Blanks l) : Separates l := by
  have hAll := h.separates (m := "") .nil
  rwa [String.append_empty] at hAll

theorem Separates.dropBlank {l : String} (h : Separates l) : Separates (Text.dropBlank l) := by
  rw [Separates, Text.dropBlank, String.toList_ofList]
  exact h.leadingBlank.2

/-- What stands before the first spelling begins with blanks that may stand anywhere. -/
theorem Opens.blanks {l : String} (h : Opens l) : Blanks (Text.leadingBlank l) := by
  rw [Blanks, Text.leadingBlank, String.toList_ofList]
  rcases h with h | ⟨m, -, rfl⟩
  · exact h.leadingBlank.1
  · -- the mark is no blank
    have hMark : Text.isBlank Text.byteOrderMark = false := by decide
    rw [String.toList_append, Text.leadingBlankChars, String.toList_singleton, List.singleton_append,
      List.takeWhile_cons_of_neg (by simp [hMark])]
    simp

/-- All tokens but the last are spelled. -/
theorem Cut.split {ts us : List Token} (h : Cut (ts ++ us)) (hus : us ≠ []) :
    (∀ t ∈ ts, Spelled t) ∧ Cut us := by
  induction ts with
  | nil => exact ⟨by simp, h⟩
  | cons t ts ih =>
    generalize hAll : t :: ts ++ us = all at h
    cases h with
    | last _ =>
      obtain ⟨-, hNil⟩ := List.cons.inj hAll
      exact absurd (List.append_eq_nil_iff.mp hNil).2 hus
    | cons hSpelled hs =>
      obtain ⟨rfl, rfl⟩ := List.cons.inj hAll
      obtain ⟨hts, hCut⟩ := ih hs
      exact ⟨List.forall_mem_cons.mpr ⟨hSpelled, hts⟩, hCut⟩

theorem Spelled.withLeading {t : Token} {l l' : String} (h : Spelled (t.withLeading l))
    (hl : Separates l') : Spelled (t.withLeading l') := ⟨h.kind_ne, h.text_ne, hl⟩

/-- To be spelled asks of trivia that a spelling may follow, and of a spelling that there is one. -/
theorem durable_spelled : Durable Spelled Separates (· ≠ "") where
  leading h := h.trivia
  withLeading h hl := h.withLeading hl
  withText h hw := ⟨h.kind_ne, hw, h.trivia⟩
  fresh hKind hw hl := ⟨hKind, hw, hl⟩
  noTrivia := .nil
  blank := .gap (by decide) .nil
  respaced := by
    intro l m hl hm
    have hBlanks : Blanks (Text.leadingBlank l) := by
      rw [Blanks, Text.leadingBlank, String.toList_ofList]
      exact hl.leadingBlank.1
    exact hBlanks.separates hm.dropBlank
  dot := by decide
  importWord := by decide
  semicolon := by decide

/-- A mark of byte order matters only before the first token of a text. -/
theorem partition_cons {t : Token} {ts : List Token} (hts : ts ≠ []) :
    Partition (t :: ts) ↔ Spelled (t.withLeading "") ∧ Opens t.leading ∧ Cut ts := by
  constructor
  · rintro ⟨us, hCut, hus⟩
    cases hCut with
    | last hEnds => rcases hus with hus | hus <;> exact absurd (List.cons.inj hus).2 hts
    | @cons u us hSpelled hs =>
      have hSelf : Spelled (u.withLeading u.leading) := hSpelled
      rcases hus with hus | hus
      · obtain ⟨rfl, rfl⟩ := List.cons.inj hus
        exact ⟨hSelf.withLeading .nil, Or.inl hSpelled.trivia, hs⟩
      · obtain ⟨rfl, rfl⟩ := List.cons.inj hus
        exact ⟨hSelf.withLeading .nil, Or.inr ⟨u.leading, hSpelled.trivia, rfl⟩, hs⟩
  · rintro ⟨hSpelled, hOpens, hs⟩
    rcases hOpens with hOpens | ⟨m, hm, hLeading⟩
    · have hSelf : Spelled (t.withLeading t.leading) := hSpelled.withLeading hOpens
      exact ⟨t :: ts, .cons hSelf hs, Or.inl rfl⟩
    · refine ⟨t.withLeading m :: ts, .cons (hSpelled.withLeading hm) hs, Or.inr ?_⟩
      simp only [addTrivia, Token.leading_withLeading, ← hLeading]
      rfl

end Layout

-- ---------------------------------------------------------------------------
-- Nodes
-- ---------------------------------------------------------------------------

namespace Node

/-- Each token of the node has a spelling, and nothing but trivia before it. -/
def Clear (n : Node) : Prop := ∀ t ∈ n.tokens, Layout.Spelled t

/-- The same, where a mark of byte order may stand before all. -/
def Opens (n : Node) : Prop := (n.withLeading "").Clear ∧ Layout.Opens n.leading

variable {n : Node}

/-- What stands before a clear node is trivia. -/
theorem Clear.leading (h : n.Clear) : Layout.Separates n.leading :=
  Each.leading Layout.durable_spelled h

/-- Other trivia before a node do no harm. -/
theorem Clear.withLeading {l l' : String} (h : (n.withLeading l).Clear) (hl : Layout.Separates l') :
    (n.withLeading l').Clear := Each.withLeading Layout.durable_spelled h hl

theorem Clear.refront {l : String} (h : n.Clear) (hl : Layout.Separates l) :
    (n.withLeading l).Clear := Each.refront Layout.durable_spelled h hl

theorem Clear.opens (h : n.Clear) : n.Opens := ⟨h.refront .nil, Or.inl h.leading⟩

theorem Opens.withLeading {l : String} (h : n.Opens) (hl : Layout.Separates l) :
    (n.withLeading l).Clear := Clear.withLeading h.1 hl

theorem clear_importOf {t : TypeName} {l : String} (ht : ∀ part ∈ Text.splitDots t.text, part ≠ "")
    (hl : Layout.Separates l) : (importOf t l).Clear := each_importOf Layout.durable_spelled ht hl

theorem opens_importOf {t : TypeName} {l : String} (ht : ∀ part ∈ Text.splitDots t.text, part ≠ "")
    (hl : Layout.Opens l) : (importOf t l).Opens := ⟨clear_importOf (l := "") ht .nil, hl⟩

/-- What keeps clear nodes clear, and leaves what stands before a node alone, keeps it open. -/
theorem Opens.map {g : Node → Node}
    (hClear : ∀ l, (n.withLeading l).Clear → (g (n.withLeading l)).Clear)
    (hLeading : ∀ l, ∃ l', g (n.withLeading l) = (g n).withLeading l')
    (hSame : n.Fronted → (g n).leading = n.leading) (h : n.Opens) : (g n).Opens := by
  have hInner := hClear "" h.1
  by_cases hFront : n.Fronted
  · obtain ⟨l, hl⟩ := hLeading ""
    rw [hl] at hInner
    exact ⟨hInner.withLeading .nil, (hSame hFront).symm ▸ h.2⟩
  · rw [withLeading_of_not_fronted hFront] at hInner
    exact hInner.opens

end Node

-- ---------------------------------------------------------------------------
-- Nodes one after another
-- ---------------------------------------------------------------------------

/-- Nodes that a text begins with: the first of them open, the others clear. -/
def Tidy : List Node → Prop
  | [] => True
  | n :: ns => n.Opens ∧ ∀ m ∈ ns, m.Clear

namespace Tidy

variable {n m : Node} {ns ms : List Node} {l : String}

theorem opens (h : Tidy ns) (hn : n ∈ ns) : n.Opens := by
  cases ns with
  | nil => cases hn
  | cons first rest =>
    rcases List.mem_cons.mp hn with rfl | hn
    · exact h.1
    · exact (h.2 n hn).opens

theorem of_cons (h : Tidy (n :: ns)) : Tidy ns := by
  cases ns with
  | nil => trivial
  | cons m ms =>
    obtain ⟨hFirst, hRest⟩ := List.forall_mem_cons.mp h.2
    exact ⟨hFirst.opens, hRest⟩

theorem append_iff (hns : ns ≠ []) : Tidy (ns ++ ms) ↔ Tidy ns ∧ ∀ m ∈ ms, m.Clear := by
  cases ns with
  | nil => exact absurd rfl hns
  | cons n ns =>
    show n.Opens ∧ (∀ m ∈ ns ++ ms, m.Clear) ↔ (n.Opens ∧ ∀ m ∈ ns, m.Clear) ∧ ∀ m ∈ ms, m.Clear
    rw [List.forall_mem_append, and_assoc]

/-- A node may go. -/
theorem erase (h : Tidy (ns ++ n :: ms)) : Tidy (ns ++ ms) := by
  by_cases hns : ns = []
  · subst hns
    exact of_cons h
  · rw [append_iff hns] at h ⊢
    exact ⟨h.1, (List.forall_mem_cons.mp h.2).2⟩

/-- A node may take other trivia. -/
theorem refront (h : Tidy (ns ++ n :: ms)) (hl : Layout.Separates l) :
    Tidy (ns ++ n.withLeading l :: ms) := by
  have hClear : (n.withLeading l).Clear := (h.opens (by simp)).withLeading hl
  by_cases hns : ns = []
  · subst hns
    exact ⟨hClear.opens, h.2⟩
  · rw [append_iff hns] at h ⊢
    exact ⟨h.1, List.forall_mem_cons.mpr ⟨hClear, (List.forall_mem_cons.mp h.2).2⟩⟩

/-- A clear node may come anywhere but at the front. -/
theorem insert (h : Tidy (ns ++ ms)) (hns : ns ≠ []) (hn : n.Clear) : Tidy (ns ++ n :: ms) := by
  rw [append_iff hns] at h ⊢
  exact ⟨h.1, List.forall_mem_cons.mpr ⟨hn, h.2⟩⟩

/-- A node may come before another and take over its trivia. -/
theorem handOver (h : Tidy (ns ++ n :: ms)) (hm : n.Opens → m.Opens) (hmClear : n.Clear → m.Clear)
    (hl : Layout.Separates l) : Tidy (ns ++ m :: n.withLeading l :: ms) := by
  have hOpens : n.Opens := h.opens (by simp)
  have hClear : (n.withLeading l).Clear := hOpens.withLeading hl
  by_cases hns : ns = []
  · subst hns
    exact ⟨hm hOpens, List.forall_mem_cons.mpr ⟨hClear, h.2⟩⟩
  · rw [append_iff hns] at h ⊢
    obtain ⟨hn, hms⟩ := List.forall_mem_cons.mp h.2
    exact ⟨h.1, List.forall_mem_cons.mpr ⟨hmClear hn, List.forall_mem_cons.mpr ⟨hClear, hms⟩⟩⟩

theorem map {g : Node → Node} (hOpens : ∀ n ∈ ms, n.Opens → (g n).Opens)
    (hClear : ∀ n ∈ ms, n.Clear → (g n).Clear) (h : Tidy (ns ++ ms)) : Tidy (ns ++ ms.map g) := by
  have hAll {rest : List Node} (hMem : ∀ n ∈ rest, n ∈ ms) (h : ∀ n ∈ rest, n.Clear) :
      ∀ n ∈ rest.map g, n.Clear := by
    intro n hn
    obtain ⟨m, hm, rfl⟩ := List.mem_map.mp hn
    exact hClear m (hMem m hm) (h m hm)
  by_cases hns : ns = []
  · subst hns
    cases ms with
    | nil => trivial
    | cons m ms =>
      exact ⟨hOpens m List.mem_cons_self h.1, hAll (fun n hn => List.mem_cons_of_mem _ hn) h.2⟩
  · rw [append_iff hns] at h ⊢
    exact ⟨h.1, hAll (fun _ hn => hn) h.2⟩

end Tidy

variable {ns : List Node} {ends : List Token}

/-- Where a text is taken apart, the nodes before its end are tidy. -/
theorem tidy_of_partition (h : Layout.Partition (ns.flatMap Node.tokens ++ ends)) (hEnds : ends ≠ [])
    (hFronted : ∀ n ∈ ns, n.Fronted) : Tidy ns ∧ (ns ≠ [] → Layout.Cut ends) := by
  cases ns with
  | nil => exact ⟨trivial, fun hNe => absurd rfl hNe⟩
  | cons n ns =>
    have hFront : n.Fronted := hFronted n List.mem_cons_self
    obtain ⟨t, ts, hTokens⟩ := hFront.exists_tokens
    have hSelf := hTokens n.leading
    rw [hFront.withLeading_leading] at hSelf
    have hRest : ns.flatMap Node.tokens ++ ends ≠ [] := by simp [hEnds]
    rw [List.flatMap_cons, List.append_assoc, hSelf, List.cons_append,
      Layout.partition_cons (by simp [hEnds])] at h
    obtain ⟨hSpelled, hOpens, hCut⟩ := h
    obtain ⟨hInner, hCut⟩ := hCut.split hRest
    obtain ⟨hNodes, hCut⟩ := hCut.split hEnds
    refine ⟨⟨⟨?_, hOpens⟩, ?_⟩, fun _ => hCut⟩
    · rw [Node.Clear, hTokens, List.forall_mem_cons]
      exact ⟨hSpelled, hInner⟩
    · exact fun m hm t ht => hNodes t (List.mem_flatMap.mpr ⟨m, hm, ht⟩)

end SourceMigration
