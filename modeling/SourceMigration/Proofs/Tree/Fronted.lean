import SourceMigration.Proofs.Tree.Names
import SourceMigration.Proofs.Tree.Leaves

/-!
# SourceMigration — where a node begins

The trivia before a node are changed by going down through first children as far as to a token. The
way may end before it comes to one, and then nothing is changed at all: only an empty run of
elements is such a node where names have parts.

## Results

* `exists_tokens`       — other trivia before a fronted node are those of its first token.
* `fronted_mapLeaves`   — an edit of names and calls that keeps their fronts keeps every front.
-/

namespace SourceMigration.Node

/-- The way down through first children ends at a token. -/
inductive Fronted : Node → Prop where
  | token (t : Token) : Fronted (.token t)
  | branch {k : NodeKind} {f : Field} {n : Node} {cs : List (Field × Node)} (h : Fronted n) :
      Fronted (.branch k ((f, n) :: cs))

/-- Where the way down ends before it comes to a token, nothing takes other trivia. -/
theorem withLeading_of_not_fronted {n : Node} (h : ¬ n.Fronted) (l : String) :
    n.withLeading l = n := by
  induction n using Node.induct with
  | token t => exact absurd (.token t) h
  | branch k cs ih =>
    cases cs with
    | nil => rfl
    | cons c cs =>
      obtain ⟨f, n⟩ := c
      rw [withLeading_branch, withLeadingIn_cons,
        ih (f, n) List.mem_cons_self fun hFront => h (.branch hFront)]

namespace Fronted

variable {n : Node}

/-- Other trivia before a fronted node are those of its first token. -/
theorem exists_tokens (h : n.Fronted) :
    ∃ (t : Token) (ts : List Token), ∀ l, (n.withLeading l).tokens = t.withLeading l :: ts := by
  induction h with
  | token t => exact ⟨t, [], fun _ => rfl⟩
  | @branch k f n cs _ ih =>
    obtain ⟨t, ts, hTokens⟩ := ih
    refine ⟨t, ts ++ tokensOf cs, fun l => ?_⟩
    rw [withLeading_branch, withLeadingIn_cons, tokens, tokensOf, hTokens, List.cons_append]

@[simp] theorem leading_withLeading (h : n.Fronted) (l : String) :
    (n.withLeading l).leading = l := by
  obtain ⟨t, ts, hTokens⟩ := h.exists_tokens
  rw [leading, hTokens]
  rfl

@[simp] theorem withLeading_leading (h : n.Fronted) : n.withLeading n.leading = n := by
  obtain ⟨l, hl⟩ := n.exists_withLeading_eq_self
  have hLeading : n.leading = l := by
    conv_lhs => rw [← hl]
    exact h.leading_withLeading l
  rw [hLeading, hl]

theorem withLeading (h : n.Fronted) (l : String) : (n.withLeading l).Fronted := by
  induction h with
  | token t => exact .token _
  | branch _ ih => exact .branch ih

/-- A node begins where its first child does. -/
theorem leading_branch (h : n.Fronted) (k : NodeKind) (f : Field) (cs : List (Field × Node)) :
    (Node.branch k ((f, n) :: cs)).leading = n.leading := by
  obtain ⟨t, ts, hTokens⟩ := h.exists_tokens
  have hSelf := hTokens n.leading
  rw [h.withLeading_leading] at hSelf
  rw [leading, leading, tokens, tokensOf, hSelf]
  rfl

end Fronted

-- ---------------------------------------------------------------------------
-- Edits of names and calls
-- ---------------------------------------------------------------------------

/-- An edit of names and calls after which they begin as before. -/
def KeepsFronts (f : Node → Node) : Prop :=
  ∀ {k : NodeKind} {cs : List (Field × Node)}, k.isLeaf = true → (branch k cs).WellFormed →
    (branch k cs).Fronted →
      (f (.branch k cs)).Fronted ∧ (f (.branch k cs)).leading = (branch k cs).leading

/-- Then every node begins as before. -/
theorem fronted_mapLeaves {f : Node → Node} (hf : KeepsFronts f) {n : Node} (h : n.WellFormed)
    (hFront : n.Fronted) : (n.mapLeaves f).Fronted ∧ (n.mapLeaves f).leading = n.leading := by
  induction hFront with
  | token t => exact ⟨.token t, rfl⟩
  | @branch k g n cs hFirst ih =>
    by_cases hk : k.isLeaf = true
    · rw [mapLeaves_leaf hk]
      exact hf hk h (.branch hFirst)
    · obtain ⟨hFronted, hLeading⟩ := ih (h.child List.mem_cons_self)
      rw [mapLeaves_branch (by simpa using hk), List.map_cons]
      refine ⟨.branch hFronted, ?_⟩
      rw [hFronted.leading_branch, hFirst.leading_branch, hLeading]

end SourceMigration.Node
