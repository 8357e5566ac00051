import SourceMigration.Proofs.Editing.Tidy
import SourceMigration.Proofs.Recipe.Migrated

/-!
# SourceMigration — what is true of every token

What is true of every token of a node is true of every token after the visit, if it is true of what the
visit writes: the tokens of the new supertype and the names of methods. The appender recipe writes nothing
but plain words.

## Results

* `each_visited`      — what is true of every token of a node is true after the visit.
* `writes_companions` — the passes of the appender recipe write plain words.
-/

namespace SourceMigration

-- ---------------------------------------------------------------------------
-- The visit
-- ---------------------------------------------------------------------------

namespace ClassParts

/-- The tokens that stand in a type declaration by themselves. -/
def signs (p : ClassParts) : List Token :=
  p.kind :: p.name :: (p.extends?.toList.map Prod.fst ++ [p.opening, p.closing])

theorem inner_map (g : Node → Node) (p : ClassParts) : (p.map g).inner = p.inner.map g := by
  unfold inner map
  cases p.extends? <;> simp

theorem signs_map (g : Node → Node) (p : ClassParts) : (p.map g).signs = p.signs := by
  unfold signs map
  cases p.extends? <;> rfl

theorem each_toNode {P : Token → Prop} {p : ClassParts} :
    p.toNode.Each P ↔ (∀ n ∈ p.inner, n.Each P) ∧ ∀ t ∈ p.signs, P t := by
  have hEach (ns : List Node) : (∀ t ∈ ns.flatMap Node.tokens, P t) ↔ ∀ n ∈ ns, n.Each P := by
    simp only [List.mem_flatMap]
    exact ⟨fun h n hn t ht => h t ⟨n, hn, ht⟩, fun h t ⟨n, hn, ht⟩ => h n hn t ht⟩
  rw [Node.Each, tokens_toNode]
  simp only [List.forall_mem_append, List.forall_mem_cons, hEach, inner, signs]
  cases p.extends? with
  | none => simp; tauto
  | some c => simp [Node.Each]; tauto

end ClassParts

namespace Recipe

section Each

variable {P : Token → Prop} {L W : String → Prop} {r : Recipe} {tree : Node} (hP : Durable P L W)
  (hTable : ∀ e ∈ r.table.rename, W e.2) (hTree : tree.Each P)

include hP hTable hTree

theorem each_editParts {p : ClassParts} (h : p.WellFormed) (hEach : p.toNode.Each P) :
    (r.editParts tree p).toNode.Each P := by
  unfold editParts
  split
  · exact hEach
  · rw [ClassParts.each_toNode] at hEach ⊢
    simp only [ClassParts.inner, List.forall_mem_append] at hEach ⊢
    obtain ⟨⟨hModifiers, hHeader, hExtends, hTail, hMembers⟩, hSigns⟩ := hEach
    refine ⟨⟨hModifiers, hHeader, ?_, hTail, ?_⟩, ?_⟩
    · cases hClause : p.extends? with
      | none => simp
      | some c =>
        have hOld : c.2.Each P := hExtends c.2 (by simp [hClause])
        simp only [Option.map_some, Option.toList_some, List.map_cons, List.map_nil,
          List.mem_singleton, forall_eq]
        unfold movedSupertype
        split
        · exact hTree.refront hP (hOld.leading hP)
        · exact hOld
    · exact MemberTable.each_settled hP hTable (fun m hm => (h.members m hm).2) hMembers
    · have hSame : (p.extends?.map (r.movedSupertype tree)).toList.map Prod.fst =
          p.extends?.toList.map Prod.fst := by
        cases p.extends? with
        | none => rfl
        | some c =>
          simp only [Option.map_some, Option.toList_some, List.map_cons, movedSupertype]
          split <;> rfl
      simpa only [ClassParts.signs, hSame] using hSigns

/-- What the visit makes of a node keeps what is true of every token. -/
theorem each_visited (hFine : tree.form ∈ [Form.name, .parameterized] ∧ tree.WellFormed) {n : Node}
    (h : n.WellFormed) (hEach : n.Each P) : (r.visited tree n).Each P := by
  induction h using Node.WellFormed.induct_parts with
  | token t =>
    rw [visited]
    exact hEach
  | branch k cs hk h ih =>
    rw [Node.each_branch] at hEach
    rw [visited_branch r tree hk, Node.each_branch]
    intro c hc
    obtain ⟨d, hd, rfl⟩ := List.mem_map.mp hc
    exact ih d hd (hEach d hd)
  | declaration p h ih =>
    rw [visited_toNode]
    have hInner (n : Node) (hn : n ∈ p.inner) : (r.visited tree n).WellFormed :=
      r.wellFormed_visited tree hFine (h.inner n hn)
    refine each_editParts hP hTable hTree (h.map (r.descends_visited tree) hInner) ?_
    rw [ClassParts.each_toNode] at hEach ⊢
    rw [ClassParts.inner_map, ClassParts.signs_map]
    refine ⟨fun n hn => ?_, hEach.2⟩
    obtain ⟨m, hm, rfl⟩ := List.mem_map.mp hn
    exact ih m hm (hEach.1 m hm)

end Each

/-- The visit of its types keeps the nodes of a unit tidy. -/
theorem tidy_visited {r : Recipe} {tree : Node} (hTable : ∀ e ∈ r.table.rename, e.2 ≠ "") (hTree : tree.Clear)
    (hFine : tree.form ∈ [Form.name, .parameterized] ∧ tree.WellFormed)
    {p : UnitParts} (hp : p.Sound) (h : Tidy p.nodes) :
    Tidy (p.mapTypes (r.visited tree)).nodes := by
  have hVisited {n : Node} (hn : n.WellFormed) (hClear : n.Clear) : (r.visited tree n).Clear :=
    each_visited Layout.durable_spelled hTable hTree hFine hn hClear
  rw [UnitParts.nodes, ← List.append_assoc] at h ⊢
  refine h.map (fun n hn => ?_) fun n hn => hVisited (hp.types n hn).2
  have hNode := (hp.types n hn).2
  exact Node.Opens.map (fun l => hVisited (hNode.withLeading l))
    (fun l => ⟨l, r.visited_withLeading hNode l⟩) fun _ => r.leading_visited hNode

end Recipe

namespace Appender

section Words

/-- A word without a blank. -/
def Plain (w : String) : Prop := w ≠ "" ∧ ∀ c ∈ w.toList, Text.isGap c = false

instance (w : String) : Decidable (Plain w) :=
  decidable_of_iff (w ≠ "" ∧ (w.toList.all fun c => !Text.isGap c) = true) (by simp [Plain])

variable {P : Token → Prop} {L W : String → Prop} (hW : ∀ w, Plain w → W w)

include hW

/-- The recipe writes nothing but plain words. -/
theorem writes_table : ∀ e ∈ recipe.table.rename, W e.2 := by
  have hPlain : ∀ e ∈ recipe.table.rename, Plain e.2 := by decide
  exact fun e he => hW _ (hPlain e he)

theorem writes_companions : ∀ pass ∈ companions, pass.Writes W := by
  have hPlain : ∀ t ∈ [base, event, layout], (∀ part ∈ Text.splitDots t.text, Plain part) ∧
      ∀ part ∈ Text.splitDots t.simple, Plain part := by decide +kernel
  have hNew (t : TypeName) (ht : t ∈ [base, event, layout]) : (∀ part ∈ Text.splitDots t.text, W part) ∧
      ∀ part ∈ Text.splitDots t.simple, W part :=
    ⟨fun part hPart => hW _ ((hPlain t ht).1 part hPart), fun part hPart => hW _ ((hPlain t ht).2 part hPart)⟩
  intro pass hPass
  simp only [companions, List.mem_cons, List.not_mem_nil, or_false] at hPass
  rcases hPass with rfl | rfl | rfl | rfl | rfl | rfl
  · exact hW "doLayout" (by decide)
  · exact hNew event (by simp)
  · exact hNew layout (by simp)
  · trivial
  · exact (hNew base (by simp)).1
  · exact (hNew event (by simp)).1

theorem each_newSupertype (hP : Durable P L W) : newSupertype.Each P := by
  have hWord {kind : TokenKind} {text : String} {line column : Nat} (hKind : kind ≠ .endOfText)
      (hText : Plain text) : P ⟨kind, text, "", line, column⟩ := hP.fresh hKind (hW _ hText) hP.noTrivia
  intro t ht
  simp only [newSupertype, Node.tokens, Node.tokensOf, Node.tokens_nameOf, List.append_nil,
    List.cons_append, List.nil_append, List.mem_cons, List.not_mem_nil, or_false] at ht
  rcases ht with rfl | rfl | rfl | rfl <;> exact hWord (by decide) (by decide)

end Words

end Appender

end SourceMigration
