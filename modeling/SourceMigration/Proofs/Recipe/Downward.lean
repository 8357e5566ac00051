import SourceMigration.Proofs.Recipe.Visit
import SourceMigration.Proofs.Tree.Fronted

/-!
# SourceMigration — the visit from above

The visit edits a class after those within it. The edit of a class looks at the names and the
bodies of its methods and at what its supertype denotes, and none of this is changed by edits
further in. So the class can as well be edited first and what is left of it be visited then: seen
from above, the visit edits each class as it stands in the resolved unit.

## Results

* `visited_withLeading` — the visit carries the trivia before a node over.
* `settled_visited`     — members may be visited before or after the table is applied to them.
* `visited_declaration` — the visit of a class visits what is left of the class after its edit.
* `induct_edited`       — induction over nodes from above, along the visit.
-/

namespace SourceMigration

-- ---------------------------------------------------------------------------
-- Trivia and tokens of classes
-- ---------------------------------------------------------------------------

namespace ClassParts

/-- The tokens of a class, part after part. -/
theorem tokens_toNode (p : ClassParts) : p.toNode.tokens =
    p.modifiers.flatMap Node.tokens ++ (p.kind :: p.name :: (p.header.flatMap Node.tokens ++
      ((p.extends?.toList.flatMap fun c => c.1 :: c.2.tokens) ++ (p.tail.flatMap Node.tokens ++
        p.opening :: (p.members.flatMap Node.tokens ++ [p.closing]))))) := by
  have hClause (c : Token × Node) : (clauseOf c).tokens = c.1 :: c.2.tokens := by
    simp [clauseOf, Node.tokens, Node.tokensOf]
  have hBody : p.body.tokens = p.opening :: (p.members.flatMap Node.tokens ++ [p.closing]) := by
    simp [body, Node.tokens, Node.tokensOf_eq, List.flatMap_map]
  rw [toNode, Node.tokens, Node.tokensOf_eq]
  simp [children, List.flatMap_map, hClause, hBody, Node.tokens]

/-- The parts with other trivia before the first of them. -/
def withLeading (l : String) (p : ClassParts) : ClassParts :=
  match p.modifiers with
  | [] => { p with kind := p.kind.withLeading l }
  | m :: ms => { p with modifiers := m.withLeading l :: ms }

@[simp] theorem denoted_withLeading (p : ClassParts) (l : String) :
    (p.withLeading l).denoted? = p.denoted? := by
  unfold withLeading
  cases p.modifiers <;> rfl

@[simp] theorem members_withLeading (p : ClassParts) (l : String) :
    (p.withLeading l).members = p.members := by
  unfold withLeading
  cases p.modifiers <;> rfl

theorem withLeading_toNode (p : ClassParts) (l : String) :
    p.toNode.withLeading l = (p.withLeading l).toNode := by
  obtain ⟨modifiers, kind, name, header, extends?, tail, opening, members, closing⟩ := p
  cases modifiers <;> rfl

end ClassParts

namespace Node

theorem length_walk_child {k : NodeKind} {cs : List (Field × Node)} {c : Field × Node}
    (h : c ∈ cs) : c.2.walk.length < (branch k cs).walk.length := by
  obtain ⟨front, back, rfl⟩ := List.append_of_mem h
  simp only [walk, walkOf_eq, List.length_cons, List.flatMap_append, List.flatMap_cons,
    List.length_append]
  omega

@[simp] theorem length_walk_withLeading (n : Node) (l : String) :
    (n.withLeading l).walk.length = n.walk.length := by
  induction n using Node.induct with
  | token t => rfl
  | branch k cs ih =>
    cases cs with
    | nil => rfl
    | cons c cs =>
      obtain ⟨f, n⟩ := c
      have hChild := ih (f, n) List.mem_cons_self
      simp only [withLeading_branch, withLeadingIn_cons, walk, walkOf, List.length_cons,
        List.length_append, hChild]

end Node

/-- What stands in a part of a class has fewer nodes than the class. -/
theorem ClassParts.length_walk_inner {p : ClassParts} {n : Node} (h : n ∈ p.inner) :
    n.walk.length < p.toNode.walk.length := by
  rcases mem_inner h with ⟨c, hc, rfl⟩ | ⟨c, hc, d, hd, rfl⟩
  · exact Node.length_walk_child hc
  · have hChild : c.2.walk.length < p.toNode.walk.length := Node.length_walk_child hc
    cases hNode : c.2 with
    | token t =>
      rw [hNode] at hd
      cases hd
    | branch k cs =>
      rw [hNode] at hd hChild
      exact Nat.lt_trans (Node.length_walk_child hd) hChild

/-- Lists of lists that begin alike, one by one, begin alike as a whole. -/
theorem head_flatMap_congr {α β : Type} {f g : α → List β} {xs : List α}
    (h : ∀ x ∈ xs, (f x).head? = (g x).head?) : (xs.flatMap f).head? = (xs.flatMap g).head? := by
  induction xs with
  | nil => rfl
  | cons x xs ih =>
    rw [List.flatMap_cons, List.flatMap_cons, List.head?_append, List.head?_append,
      h x List.mem_cons_self, ih fun y hy => h y (List.mem_cons_of_mem _ hy)]

theorem replaceFirst_map_snd (f : Field) (g : Node → Node) (new : Node)
    (cs : List (Field × Node)) :
    Node.setField.replaceFirst f (g new) (cs.map fun c => (c.1, g c.2)) =
      (Node.setField.replaceFirst f new cs).map fun c => (c.1, g c.2) := by
  induction cs with
  | nil => rfl
  | cons c cs ih =>
    obtain ⟨h, n⟩ := c
    rw [List.map_cons, replaceFirst_cons, replaceFirst_cons, ih]
    split <;> rfl

-- ---------------------------------------------------------------------------
-- Members
-- ---------------------------------------------------------------------------

namespace MemberTable

variable (table : MemberTable) {g : Node → Node}

/-- The outcome of a member with other things in it is its outcome with those things in it. -/
theorem outcome_descends (hg : Descends g) {m : Node} (h : m.WellFormed) :
    table.outcome (g m) = (table.outcome m).map g := by
  unfold outcome
  rw [table.decide_descends hg h]
  cases hDecide : table.decide m with
  | keep => rfl
  | drop => rfl
  | rename new =>
    obtain ⟨cs, rfl⟩ := table.exists_method_of_decide (by rw [hDecide]; simp)
    obtain ⟨t, ht⟩ := h.exists_filed_token (f := .name) (by simp [NodeKind.slots])
    have hReplace : Node.setField.replaceFirst .name (.token (t.withText new))
          (cs.map fun c => (c.1, g c.2)) =
        (Node.setField.replaceFirst .name (.token (t.withText new)) cs).map
          fun c => (c.1, g c.2) := by
      rw [← replaceFirst_map_snd, hg.token]
    rw [hg.branch .method cs rfl (by simp)]
    simp [Node.relabelled?, Node.tokenAt?, Node.field?, filed_map_snd, ht, hg.token,
      Node.setField, hReplace, hg.branch .method _ rfl (by simp)]

/-- What is left of members with other things in them, if the trivia before them are the same. -/
theorem settled_descends (hg : Descends g)
    (hLeading : ∀ {n : Node}, n.WellFormed → (g n).leading = n.leading)
    (hFront : ∀ {n : Node}, n.WellFormed → ∀ l, g (n.withLeading l) = (g n).withLeading l)
    {ms : List Node} (h : ∀ m ∈ ms, m.form ∈ memberForms ∧ m.WellFormed) :
    table.settled (ms.map g) = (table.settled ms).map g := by
  have hOutcomes : (ms.map g).filterMap table.outcome = (ms.filterMap table.outcome).map g := by
    rw [List.filterMap_map, List.map_filterMap]
    exact List.filterMap_congr fun m hm => table.outcome_descends hg (h m hm).2
  have hBlanks : (ms.map g).head?.bind table.handedOn? = ms.head?.bind table.handedOn? := by
    cases ms with
    | nil => rfl
    | cons m ms =>
      obtain ⟨-, hFine⟩ := h m List.mem_cons_self
      simp [handedOn?, table.decide_descends hg hFine, hLeading hFine]
  have hFine : ∀ n ∈ ms.filterMap table.outcome, n.WellFormed := by
    intro n hn
    obtain ⟨m, hm, hOutcome⟩ := List.mem_filterMap.mp hn
    exact (table.outcome_member hOutcome (h m hm)).2
  rw [settled, settled, hOutcomes, hBlanks]
  generalize ms.filterMap table.outcome = ns at hFine
  cases ms.head?.bind table.handedOn? with
  | none => rfl
  | some blanks =>
    cases ns with
    | nil => rfl
    | cons n ns =>
      have hn := hFine n List.mem_cons_self
      simp [adopt, hLeading hn, hFront hn]

/-- What is left of members has no more nodes than they. -/
theorem exists_of_settled {ms : List Node} (h : ∀ m ∈ ms, m.form ∈ memberForms ∧ m.WellFormed)
    {n : Node} (hn : n ∈ table.settled ms) : ∃ m ∈ ms, n.walk.length = m.walk.length := by
  obtain ⟨m, hm, s, l, hOutcome, rfl⟩ := table.exists_outcome_of_settled hn
  refine ⟨m, hm, ?_⟩
  rw [Node.length_walk_withLeading]
  cases hDecide : table.decide m with
  | keep =>
    rw [outcome, hDecide] at hOutcome
    rw [← Option.some.inj hOutcome]
  | drop =>
    rw [outcome, hDecide] at hOutcome
    cases hOutcome
  | rename new =>
    obtain ⟨front, t, back, rfl, -, hRenamed⟩ := table.outcome_of_rename (h m hm).2 hDecide
    rw [← Option.some.inj (hRenamed.symm.trans hOutcome)]
    simp [Node.walk, Node.walkOf_eq]

end MemberTable

namespace Recipe

variable (r : Recipe) {tree : Node}

-- ---------------------------------------------------------------------------
-- What stands before a visited node
-- ---------------------------------------------------------------------------

/-- The visit leaves the first token of a node alone. -/
theorem head_tokens_visited {n : Node} (h : n.WellFormed) :
    (r.visited tree n).tokens.head? = n.tokens.head? := by
  induction h using Node.WellFormed.induct_parts with
  | token t => rw [visited]
  | branch k cs hk h ih =>
    rw [visited_branch r tree hk, Node.tokens, Node.tokens, Node.tokensOf_eq, Node.tokensOf_eq,
      List.flatMap_map]
    exact head_flatMap_congr ih
  | declaration p h ih =>
    have hModifiers : ((p.modifiers.map (r.visited tree)).flatMap Node.tokens).head? =
        (p.modifiers.flatMap Node.tokens).head? := by
      rw [List.flatMap_map]
      exact head_flatMap_congr fun n hn => ih n (by simp [ClassParts.inner, hn])
    have hParts : (r.editParts tree (p.map (r.visited tree))).modifiers =
          p.modifiers.map (r.visited tree) ∧
        (r.editParts tree (p.map (r.visited tree))).kind = p.kind := by
      unfold editParts
      split <;> exact ⟨rfl, rfl⟩
    rw [visited_toNode, ClassParts.tokens_toNode, ClassParts.tokens_toNode, List.head?_append,
      List.head?_append, hParts.1, hModifiers, hParts.2]
    rfl

theorem leading_visited {n : Node} (h : n.WellFormed) :
    (r.visited tree n).leading = n.leading := by
  rw [Node.leading, Node.leading, r.head_tokens_visited h]

/-- The visit carries the trivia before a node over. -/
theorem visited_withLeading {n : Node} (h : n.WellFormed) (l : String) :
    r.visited tree (n.withLeading l) = (r.visited tree n).withLeading l := by
  induction h using Node.WellFormed.induct_parts with
  | token t =>
    rw [visited]
    exact visited.eq_1 r tree _
  | branch k cs hk h ih =>
    rw [Node.withLeading_branch, visited_branch r tree hk, visited_branch r tree hk,
      Node.withLeading_branch]
    cases cs with
    | nil => rfl
    | cons c cs =>
      rw [Node.withLeadingIn_cons, List.map_cons, List.map_cons, ih c List.mem_cons_self,
        Node.withLeadingIn_cons]
  | declaration p h ih =>
    rw [ClassParts.withLeading_toNode, visited_toNode, visited_toNode,
      ClassParts.withLeading_toNode]
    congr 1
    have hMap : (p.withLeading l).map (r.visited tree) =
        (p.map (r.visited tree)).withLeading l := by
      unfold ClassParts.withLeading ClassParts.map
      cases hModifiers : p.modifiers with
      | nil => rfl
      | cons m ms => simp [ih m (by simp [ClassParts.inner, hModifiers])]
    rw [hMap]
    generalize p.map (r.visited tree) = q
    unfold editParts
    rw [ClassParts.denoted_withLeading]
    split
    · rfl
    · unfold ClassParts.withLeading
      cases q.modifiers <;> rfl

/-- The visit of a node begins where the node does. -/
theorem fronted_visited {n : Node} (h : n.WellFormed) (hFront : n.Fronted) : (r.visited tree n).Fronted := by
  by_contra hNot
  -- otherwise the visit would forget what stands before the node
  have hAll (l : String) : l = (r.visited tree n).leading := by
    have hVisited : r.visited tree (n.withLeading l) = _ := r.visited_withLeading h l
    rw [Node.withLeading_of_not_fronted hNot] at hVisited
    rw [← hVisited, r.leading_visited (h.withLeading l), hFront.leading_withLeading]
  exact absurd ((hAll "").trans (hAll " ").symm) (by decide)

/-- Members may be visited before or after the table is applied to them. -/
theorem settled_visited {ms : List Node} (h : ∀ m ∈ ms, m.form ∈ memberForms ∧ m.WellFormed) :
    r.table.settled (ms.map (r.visited tree)) = (r.table.settled ms).map (r.visited tree) :=
  r.table.settled_descends (r.descends_visited tree) (fun h => r.leading_visited h)
    (fun h => r.visited_withLeading h) h

-- ---------------------------------------------------------------------------
-- Classes
-- ---------------------------------------------------------------------------

variable (hTree : tree.WellFormed) (hTreeNone : tree.walk.any Supertype.isKnown = false)

include hTree hTreeNone

/-- A class may be edited before or after what stands in it is visited. -/
theorem editParts_map_visited {p : ClassParts} (h : p.WellFormed) :
    r.editParts tree (p.map (r.visited tree)) = (r.editParts tree p).map (r.visited tree) := by
  unfold editParts
  rw [r.denoted_map_visited tree h]
  split
  · rfl
  · have hExtends : (p.extends?.map fun c => (c.1, r.visited tree c.2)).map
          (r.movedSupertype tree) =
        (p.extends?.map (r.movedSupertype tree)).map fun c => (c.1, r.visited tree c.2) := by
      cases hClause : p.extends? with
      | none => rfl
      | some c =>
        obtain ⟨-, hFine⟩ := h.supertype c hClause
        simp only [Option.map_some, movedSupertype, r.denoted_visited tree hFine]
        split
        · rw [r.leading_visited hFine, r.visited_withLeading hTree,
            visited_of_unreached hTree hTreeNone]
        · rfl
    simp only [ClassParts.map, hExtends, r.settled_visited h.members]

/-- The visit of a class visits what is left of the class after its edit. -/
theorem visited_declaration {p : ClassParts} (h : p.WellFormed) :
    r.visited tree p.toNode = .branch .typeDeclaration
      ((r.editParts tree p).children.map fun c => (c.1, r.visited tree c.2)) := by
  rw [visited_toNode, r.editParts_map_visited hTree hTreeNone h, ClassParts.toNode,
    ClassParts.children_map (r.descends_visited tree)]

omit hTree hTreeNone in
/-- Induction over well-formed nodes, where what is below a class is what is left of it after its
edit. -/
theorem induct_edited {P : Node → Prop}
    (hTree : tree.form ∈ [Form.name, .parameterized] ∧ tree.WellFormed)
    (new : ∀ l, P (tree.withLeading l))
    (token : ∀ t, P (.token t))
    (branch : ∀ k cs, k ≠ .typeDeclaration → (Node.branch k cs).WellFormed →
      (∀ c ∈ cs, P c.2) → P (.branch k cs))
    (declaration : ∀ p : ClassParts, p.WellFormed →
      (∀ c ∈ (r.editParts tree p).children, P c.2) → P p.toNode)
    {n : Node} (h : n.WellFormed) : P n := by
  induction hSize : n.walk.length using Nat.strongRecOn generalizing n with
  | ind size ih =>
    have hLess {m : Node} (hm : m.WellFormed) (hLess : m.walk.length < n.walk.length) : P m :=
      ih _ (hSize ▸ hLess) hm rfl
    cases n with
    | token t => exact token t
    | branch k cs =>
      by_cases hk : k = .typeDeclaration
      · subst hk
        obtain ⟨p, hp, hParts⟩ := h.exists_classParts
        rw [hp] at hLess ⊢
        refine declaration p hParts ?_
        have hInner {n : Node} (hn : n ∈ p.inner) : P n :=
          hLess (hParts.inner n hn) (ClassParts.length_walk_inner hn)
        by_cases hKnown : p.denoted?.isNone = true
        · rw [editParts, if_pos hKnown]
          exact fun c hc => hLess (hParts.toNode.child hc) (Node.length_walk_child hc)
        · have hEdited := (r.wellFormed_editParts hParts hTree).toNode
          rw [editParts, if_neg hKnown] at hEdited ⊢
          intro c hc
          have hFine := hEdited.child hc
          simp only [ClassParts.children, List.mem_cons, List.mem_append, List.mem_map,
            Option.mem_toList, Option.map_eq_some_iff, List.not_mem_nil, or_false] at hc
          rcases hc with ⟨n, hn, rfl⟩ | rfl | rfl | ⟨n, hn, rfl⟩ | ⟨c, ⟨d, hd, rfl⟩, rfl⟩ |
            ⟨n, hn, rfl⟩ | rfl
          · exact hInner (by simp [ClassParts.inner, hn])
          · exact token _
          · exact token _
          · exact hInner (by simp [ClassParts.inner, hn])
          · refine branch .extendsClause _ (by simp) hFine ?_
            intro e he
            simp only [List.mem_cons, List.not_mem_nil, or_false] at he
            rcases he with rfl | rfl
            · exact token _
            · unfold movedSupertype
              split
              · exact new _
              · exact hInner (by simp [ClassParts.inner, Option.mem_def.mp hd])
          · exact hInner (by simp [ClassParts.inner, hn])
          · refine branch .classBody _ (by simp) hFine ?_
            intro e he
            simp only [List.mem_cons, List.mem_append, List.mem_map, List.not_mem_nil,
              or_false] at he
            rcases he with rfl | ⟨n, hn, rfl⟩ | rfl
            · exact token _
            · -- a member that was renamed or moved to the front is no part of the class any more
              obtain ⟨m, hm, hNumber⟩ := r.table.exists_of_settled hParts.members hn
              have hMember : m ∈ p.inner := by simp [ClassParts.inner, hm]
              have hFewer := ClassParts.length_walk_inner hMember
              exact hLess (r.table.settled_members hParts.members n hn).2 (hNumber ▸ hFewer)
            · exact token _
      · exact branch k cs hk h fun c hc => hLess (h.child hc) (Node.length_walk_child hc)

end Recipe

end SourceMigration
