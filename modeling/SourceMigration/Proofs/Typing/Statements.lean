import SourceMigration.Proofs.Tree.Leaves
import SourceMigration.Proofs.Typing.Annotated

/-!
# SourceMigration — the statements of an attributed tree

What attribution makes of a name or a call depends on the statement that it stands in and on what
surrounds the statement. `Stands` follows attribution down a tree and says what surrounds each node.
Every statement of the attributed tree comes of a statement that stands in the tree: first its
children are attributed, then its calls.

## Results

* `statements_ofNode`  — a statement of an attributed node comes of a statement of the node.
* `statements_ofUnit`  — the same for the types of a unit.
-/

namespace SourceMigration

namespace Attribution

/-- A node in a tree, with what surrounds it when `s` surrounds the tree. -/
inductive Stands (s : Surroundings) (root : Node) : Surroundings → Node → Prop where
  | root : Stands s root s root
  | child {s' : Surroundings} {k : NodeKind} {cs : List (Field × Node)} {c : Field × Node}
      (h : Stands s root s' (.branch k cs)) (hc : c ∈ cs) :
      Stands s root (enter s' (.branch k cs)) c.2

/-- What becomes of a statement with the given children. -/
def statementOf (s : Surroundings) (cs : List (Field × Node)) : Node :=
  .branch .statement (ofCalls s [] (ofChildren s true cs).value).value

variable {s s' : Surroundings} {root n : Node}

theorem scope_enter (s : Surroundings) (n : Node) : (enter s n).scope = s.scope := by
  unfold enter
  split <;> rfl

namespace Stands

/-- What stands in a child stands in the node. -/
theorem of_child {k : NodeKind} {cs : List (Field × Node)} {c : Field × Node} (hc : c ∈ cs)
    (h : Stands (enter s (.branch k cs)) c.2 s' n) : Stands s (.branch k cs) s' n := by
  induction h with
  | root => exact .child .root hc
  | child _ hd ih => exact .child ih hd

/-- The scope is the same everywhere in a tree. -/
theorem scope_eq (h : Stands s root s' n) : s'.scope = s.scope := by
  induction h with
  | root => rfl
  | child _ _ ih => rw [scope_enter, ih]

/-- What children inherit from their parents, every node in a tree has from its root. -/
theorem inherit {P : Node → Prop} (h : Stands s root s' n) (hRoot : P root)
    (hChild : ∀ k cs, P (.branch k cs) → ∀ c ∈ cs, P c.2) : P n := by
  induction h with
  | root => exact hRoot
  | child _ hc ih => exact hChild _ _ ih _ hc

end Stands

-- ---------------------------------------------------------------------------
-- Nodes without statements
-- ---------------------------------------------------------------------------

theorem walk_branch (k : NodeKind) (cs : List (Field × Node)) :
    (Node.branch k cs).walk = .branch k cs :: cs.flatMap fun c => c.2.walk := by
  rw [Node.walk, Node.walkOf_eq]

/-- No statement stands in a name. -/
theorem not_statement_nameOf {type : Option TypeName} {ts : List Token} {m : Node}
    (hm : m ∈ (Node.nameOf type ts).walk) : m.form ≠ .statement := by
  rw [Node.nameOf, walk_branch] at hm
  rcases List.mem_cons.mp hm with rfl | hm
  · simp [Node.form, NodeKind.form]
  · obtain ⟨c, hc, hm⟩ := List.mem_flatMap.mp hm
    obtain ⟨t, -, rfl⟩ := List.mem_map.mp hc
    rw [Node.walk, List.mem_singleton] at hm
    simp [hm, Node.form]

/-- No statement stands in what becomes of a name. -/
theorem not_statement_ofName {b : Bool} {ts : List Token} {m : Node} {scope : Scope}
    (hm : m ∈ (ofName scope b (ts.map fun t => (.tokens, .token t))).value) {st : Node}
    (hSt : st ∈ m.walk) : st.form ≠ .statement := by
  have hNames : (∃ type ts, m = Node.nameOf type ts) ∨ ∃ t, m = .token t := by
    unfold ofName at hm
    simp only at hm
    split at hm
    · exact Or.inl ⟨_, ts, List.mem_singleton.mp hm⟩
    · split at hm
      · split at hm
        · rename_i hDivide
          obtain ⟨u, front, dot, back, -, rfl⟩ := exists_of_divide hDivide
          simp only [List.mem_cons, List.not_mem_nil, or_false] at hm
          rcases hm with rfl | rfl | rfl
          · exact Or.inl ⟨_, _, rfl⟩
          · exact Or.inr ⟨_, rfl⟩
          · exact Or.inl ⟨_, _, rfl⟩
        · exact Or.inl ⟨_, ts, List.mem_singleton.mp hm⟩
      · exact Or.inl ⟨_, ts, List.mem_singleton.mp hm⟩
  rcases hNames with ⟨type, us, rfl⟩ | ⟨t, rfl⟩
  · exact not_statement_nameOf hSt
  · rw [Node.walk, List.mem_singleton] at hSt
    simp [hSt, Node.form]

/-- Attaching methods to calls leaves the statements below them as they are. -/
theorem exists_of_called {cs cs' : List (Field × Node)} (h : List.Forall₂ Called cs cs') {st : Node}
    (hForm : st.form = .statement) {c' : Field × Node} (hc' : c' ∈ cs') (hSt : st ∈ c'.2.walk) :
    ∃ c ∈ cs, st ∈ c.2.walk := by
  induction h with
  | nil => cases hc'
  | @cons d d' cs cs' hd _ ih =>
    rcases List.mem_cons.mp hc' with rfl | hc'
    · refine ⟨d, List.mem_cons_self, ?_⟩
      cases hd with
      | same => exact hSt
      | attached f method ds =>
        rw [walk_branch] at hSt ⊢
        refine List.mem_cons_of_mem _ ((List.mem_cons.mp hSt).resolve_left ?_)
        rintro rfl
        cases hForm
    · obtain ⟨c, hc, hMem⟩ := ih hc'
      exact ⟨c, List.mem_cons_of_mem _ hc, hMem⟩

-- ---------------------------------------------------------------------------
-- Whole trees
-- ---------------------------------------------------------------------------

/-- Neither a declaration of a package or an import nor a statement, a node is attributed child by
child. -/
theorem childwise_of_not_mem {k : NodeKind} {forms : List Form}
    (hForms : [Form.packageDeclaration, .importDeclaration] ⊆ forms) (hForm : k.form ∉ forms)
    (hRun : k.form ≠ .statement) :
    k.form ∉ [Form.packageDeclaration, .importDeclaration, .statement] := by
  intro hMem
  have hSplit : k.form ∈ [Form.packageDeclaration, .importDeclaration] ++ [.statement] := hMem
  rcases List.mem_append.mp hSplit with h | h
  · exact hForm (hForms h)
  · exact hRun (List.mem_singleton.mp h)

/-- A statement of an attributed node comes of a statement that stands in the node. -/
theorem statements_ofNode {b : Bool} (h : n.WellFormed) (hForm : n.form ∉ Node.headerForms) :
    ∀ m ∈ (ofNode s b n).value, ∀ st ∈ m.walk, st.form = .statement →
      ∃ s' cs, Stands s n s' (.branch .statement cs) ∧ st = statementOf s' cs := by
  induction h generalizing s b with
  | token t =>
    rw [ofNode]
    intro m hm st hSt hStatement
    obtain rfl := List.mem_singleton.mp hm
    rw [Node.walk, List.mem_singleton] at hSt
    rw [hSt] at hStatement
    cases hStatement
  | @branch k cs hFills hChildren ih =>
    have hFine : (Node.branch k cs).WellFormed := .branch hFills hChildren
    have hInner (b : Bool) : ∀ d ∈ (ofChildren (enter s (.branch k cs)) b cs).value, ∀ st ∈ d.2.walk,
        st.form = .statement →
          ∃ s' ds, Stands s (.branch k cs) s' (.branch .statement ds) ∧ st = statementOf s' ds := by
      rw [ofChildren_value]
      intro d hd st hSt hStatement
      obtain ⟨c, hc, hd⟩ := List.mem_flatMap.mp hd
      obtain ⟨m, hm, rfl⟩ := List.mem_map.mp hd
      obtain ⟨s', ds, hStands, hEq⟩ :=
        ih c hc (hFine.form_child hForm hc) m hm st hSt hStatement
      exact ⟨s', ds, hStands.of_child hc, hEq⟩
    by_cases hName : k = .name none
    · subst hName
      obtain ⟨ts, rfl⟩ := hFine.exists_tokens
      rw [ofNode]
      exact fun m hm st hSt hStatement => absurd hStatement (not_statement_ofName hm hSt)
    by_cases hStatement : k = .statement
    · subst hStatement
      rw [ofNode, List.forall_mem_singleton]
      intro st hSt hSelf
      rw [walk_branch] at hSt
      rcases List.mem_cons.mp hSt with rfl | hSt
      · exact ⟨s, cs, .root, rfl⟩
      · obtain ⟨d, hd, hSt⟩ := List.mem_flatMap.mp hSt
        obtain ⟨c, hc, hSt⟩ := exists_of_called (called_ofCalls s [] _) hSelf hd hSt
        exact hInner true c hc st hSt hSelf
    · have hRun : k.form ≠ .statement := fun h =>
        hStatement (by cases k <;> first | rfl | cases h)
      rw [ofNode_branch (childwise_of_not_mem (by decide) hForm hRun) hName,
        List.forall_mem_singleton]
      intro st hSt hSelf
      rw [walk_branch] at hSt
      rcases List.mem_cons.mp hSt with rfl | hSt
      · exact absurd hSelf hRun
      · obtain ⟨d, hd, hSt⟩ := List.mem_flatMap.mp hSt
        exact hInner false d hd st hSt hSelf

/-- The types of a unit are no headers. -/
theorem not_header_of_member {n : Node} (h : n.form ∈ memberForms) : n.form ∉ Node.headerForms := by
  intro hHeader
  simp only [memberForms, Node.headerForms, List.mem_cons, List.not_mem_nil, or_false] at h hHeader
  rcases h with hForm | hForm | hForm <;> rw [hForm] at hHeader <;> simp at hHeader

/-- A statement in the types of an attributed unit comes of a statement that stands in the unit. -/
theorem statements_ofUnit (classpath : Classpath) {unit : Node} (h : unit.WellFormed)
    (hUnit : unit.form = .unit) :
    ∀ type ∈ (ofUnit classpath unit).value.field .types, ∀ st ∈ type.walk, st.form = .statement →
      ∃ s cs, Stands { scope := Scope.ofUnit unit classpath } unit s (.branch .statement cs) ∧
        st = statementOf s cs := by
  obtain ⟨cs, rfl⟩ := Node.exists_children (k := .unit) rfl hUnit
  intro type hType st hSt hStatement
  unfold ofUnit at hType
  simp only at hType
  rw [ofNode_branch (k := .unit) (by simp [NodeKind.form]) (by simp), List.headD_cons,
    Node.field_branch, filed_ofChildren] at hType
  obtain ⟨n, hn, hType⟩ := List.mem_flatMap.mp hType
  have hSlot : ⟨.types, .many, memberForms⟩ ∈ NodeKind.unit.slots := by simp [NodeKind.slots]
  obtain ⟨hForms, hFine⟩ := h.filed_many hSlot n hn
  obtain ⟨s, ds, hStands, hEq⟩ :=
    statements_ofNode hFine (not_header_of_member hForms) type hType st hSt hStatement
  exact ⟨s, ds, hStands.of_child (mem_of_mem_filed hn), hEq⟩

end Attribution

end SourceMigration
