import SourceMigration.Proofs.Parsing.Trivia
import SourceMigration.Proofs.Tree.Sturdy

/-!
# SourceMigration — fresh units

What is asked of a unit before anything has been found out about it: it is sturdy, its names and calls denote
nothing, its identifiers hold no points, the declarations before its types end with semicolons, and its
tokens stand apart as those of a text do.

## Results

* `Node.Bare.walk`        — below a node that denotes nothing, nothing denotes anything.
* `Node.Fresh.wellFormed` — a fresh unit is well-formed.
-/

namespace SourceMigration

/-- Whether nothing is known yet about what a node denotes. -/
def NodeKind.isBare : NodeKind → Bool
  | .name t => t.isNone
  | .call m => m.isNone
  | _ => true

/-- The declarations that stand before the types of a unit. -/
def openingForms : List Form := [.packageDeclaration, .importDeclaration]

namespace Node

/-- Nothing is known yet about what the names and calls in a tree denote. -/
inductive Bare : Node → Prop where
  | token (t : Token) : Bare (.token t)
  | branch {k : NodeKind} {cs : List (Field × Node)} (hKind : k.isBare = true)
      (hChildren : ∀ c ∈ cs, Bare c.2) : Bare (.branch k cs)

theorem Bare.child {k : NodeKind} {cs : List (Field × Node)} (h : Bare (.branch k cs))
    {c : Field × Node} (hc : c ∈ cs) : c.2.Bare := by
  cases h with
  | branch _ hChildren => exact hChildren c hc

/-- Below a node that denotes nothing, nothing denotes anything. -/
theorem Bare.walk {n : Node} (h : n.Bare) : ∀ m ∈ n.walk, m.Bare := by
  induction h with
  | token t =>
    intro m hm
    rw [Node.walk, List.mem_singleton] at hm
    exact hm ▸ .token t
  | @branch k cs hKind hChildren ih =>
    intro m hm
    rw [Node.walk, Node.walkOf_eq] at hm
    rcases List.mem_cons.mp hm with rfl | hm
    · exact .branch hKind hChildren
    · obtain ⟨c, hc, hm⟩ := List.mem_flatMap.mp hm
      exact ih c hc m hm

/-- A node whose last child is a semicolon. -/
def Closed (n : Node) : Prop := HasSign .semicolon ";" n.children

/-- A unit as it is before its names and calls are resolved. -/
structure Fresh (n : Node) : Prop where
  isUnit : n.form = .unit
  sturdy : n.Sturdy
  bare : n.Bare
  /-- No point stands in an identifier. -/
  plain : ∀ t ∈ n.tokens, t.kind = .identifier → '.' ∉ t.text.toList
  closed : ∀ m ∈ n.field .package ++ n.field .imports, m.Closed
  /-- The tokens take a text apart. -/
  apart : Layout.Partition n.tokens

namespace Fresh

variable {n : Node}

theorem wellFormed (h : n.Fresh) : n.WellFormed := h.sturdy.wellFormed

theorem chained (h : n.Fresh) : n.Chained := h.sturdy.chained

end Fresh

end Node

end SourceMigration
