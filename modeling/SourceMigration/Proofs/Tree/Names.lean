import Mathlib.Data.List.TakeWhile
import SourceMigration.Proofs.Tree.WellFormed

/-!
# SourceMigration — names are chains of identifiers

A name in a tree is a chain: identifiers with points between them. Where no identifier holds a point, a
dotted name falls apart into the very parts that it was made of.

## Results

* `lastPart_joinDots` — the last part of a dotted name is the last of the parts that it was made of.
* `length_links`      — links are as many points as identifiers.
-/

namespace SourceMigration

-- ---------------------------------------------------------------------------
-- Dotted names and their parts
-- ---------------------------------------------------------------------------

namespace Text

/-- The part after the last point of a text that ends with a point and a part. -/
theorem lastPart_append (front : String) {part : String} (h : '.' ∉ part.toList) :
    lastPart (front ++ "." ++ part) = part := by
  have hPart : ∀ c ∈ part.toList.reverse, (c != '.') = true := by
    intro c hc
    have hNe : c ≠ '.' := fun hEq => h (hEq ▸ List.mem_reverse.mp hc)
    simpa using hNe
  have hPoint : ".".toList = ['.'] := rfl
  simp only [lastPart, String.toList_append, hPoint, List.reverse_append, List.reverse_cons,
    List.reverse_nil, List.nil_append, List.singleton_append]
  rw [List.takeWhile_append_of_pos hPart]
  simp

/-- A text without points is its own last part. -/
theorem lastPart_of_plain {part : String} (h : '.' ∉ part.toList) : lastPart part = part := by
  have hPart : ∀ c ∈ part.toList.reverse, (c != '.') = true := by
    intro c hc
    have hNe : c ≠ '.' := fun hEq => h (hEq ▸ List.mem_reverse.mp hc)
    simpa using hNe
  rw [lastPart, List.takeWhile_eq_self_iff.2 hPart, List.reverse_reverse, String.ofList_toList]

theorem joinDots_cons_cons (p q : String) (parts : List String) :
    joinDots (p :: q :: parts) = p ++ "." ++ joinDots (q :: parts) := by
  simp [joinDots, String.intercalate_cons_cons]

/-- A dotted name is its last part, or ends with a point and its last part. -/
theorem joinDots_ends (p : String) (ps : List String) :
    joinDots (p :: ps) = (p :: ps).getLast (by simp) ∨
      ∃ front, joinDots (p :: ps) = front ++ "." ++ (p :: ps).getLast (by simp) := by
  induction ps generalizing p with
  | nil => exact Or.inl (by simp [joinDots])
  | cons q ps ih =>
    right
    rw [joinDots_cons_cons]
    rcases ih q with hEq | ⟨front, hEq⟩
    · exact ⟨p, by rw [hEq]; rfl⟩
    · exact ⟨p ++ "." ++ front, by rw [hEq]; simp [String.append_assoc]⟩

/-- The last part of a dotted name is the last of the parts that it was made of. -/
theorem lastPart_joinDots {parts : List String} (h : ∀ p ∈ parts, '.' ∉ p.toList) :
    lastPart (joinDots parts) = parts.getLast?.getD "" := by
  cases parts with
  | nil => rfl
  | cons p ps =>
    have hPlain := h _ (List.getLast_mem (l := p :: ps) (by simp))
    rw [List.getLast?_eq_getLast_of_ne_nil (by simp), Option.getD_some]
    -- what stands before the last part does not matter
    rcases joinDots_ends p ps with hEq | ⟨front, hEq⟩
    · rw [hEq, lastPart_of_plain hPlain]
    · rw [hEq, lastPart_append front hPlain]

end Text

-- ---------------------------------------------------------------------------
-- Chains of tokens
-- ---------------------------------------------------------------------------

/-- The sign between the parts of a dotted name. -/
def Token.isPoint (t : Token) : Prop := t.kind = .operator ∧ t.text = "."

/-- Identifiers with a point before each. -/
inductive Links : List Token → Prop where
  | nil : Links []
  | cons {dot t : Token} {ts : List Token} (hDot : dot.isPoint) (ht : t.kind = .identifier)
      (hs : Links ts) : Links (dot :: t :: ts)

/-- Identifiers with a point between each two. -/
def Chain (ts : List Token) : Prop :=
  ∃ t links, ts = t :: links ∧ t.kind = .identifier ∧ Links links

/-- Links are as many points as identifiers. -/
theorem length_links {links : List Token} (h : Links links) :
    2 * (links.filterMap fun t => if t.kind = .identifier then some t.text else none).length =
      links.length := by
  induction h with
  | nil => rfl
  | cons hDot ht _ ih =>
    simp only [List.filterMap_cons, hDot.1, ht, if_true, List.length_cons, reduceCtorEq, if_false]
    omega

/-- The names in a tree are chains. -/
inductive Node.Chained : Node → Prop where
  | token (t : Token) : Chained (.token t)
  | branch {k : NodeKind} {cs : List (Field × Node)}
      (hName : k.form = .name → Chain (Node.tokensOf cs)) (hChildren : ∀ c ∈ cs, Chained c.2) :
      Chained (.branch k cs)

theorem Node.Chained.child {k : NodeKind} {cs : List (Field × Node)} (h : Chained (.branch k cs))
    {c : Field × Node} (hc : c ∈ cs) : c.2.Chained := by
  cases h with
  | branch _ hChildren => exact hChildren c hc

end SourceMigration
