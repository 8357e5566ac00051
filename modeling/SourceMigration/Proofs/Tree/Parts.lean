import SourceMigration.Proofs.Tree.WellFormed
import SourceMigration.Tree.Label
import SourceMigration.Typing.Scope

/-!
# SourceMigration — well-formed nodes and their parts

An edit takes a type declaration apart by its fields, two levels deep: the supertype is below the
clause, the members are below the body. `ClassParts` holds what it finds. That a well-formed
declaration is made of its parts, in this order and of nothing else, is what lets an edit of a
part be stated without fields.

## Results

* `exists_classParts`  — a well-formed type declaration is made of its parts.
* `exists_tokens`      — a well-formed name is made of tokens.
* `exists_callee`      — a well-formed call is one token.
* `toUnit_unitParts`   — a well-formed unit is made of its parts.
* `induct_parts`       — induction over well-formed nodes, where a type declaration is taken apart.
-/

namespace SourceMigration

theorem filed_cons (f g : Field) (n : Node) (cs : List (Field × Node)) :
    filed f ((g, n) :: cs) = if g = f then n :: filed f cs else filed f cs := by
  by_cases h : g = f <;> simp [filed, h]

@[simp] theorem filed_nil (f : Field) : filed f [] = [] := rfl

theorem filed_map_snd (f : Field) (g : Node → Node) (cs : List (Field × Node)) :
    filed f (cs.map fun c => (c.1, g c.2)) = (filed f cs).map g := by
  induction cs with
  | nil => rfl
  | cons c cs ih =>
    obtain ⟨h, n⟩ := c
    rw [List.map_cons, filed_cons, filed_cons, ih]
    split <;> rfl

theorem mem_of_mem_filed {f : Field} {n : Node} {cs : List (Field × Node)} (h : n ∈ filed f cs) :
    (f, n) ∈ cs := by
  obtain ⟨⟨g, m⟩, hc, hEq⟩ := List.mem_filterMap.mp h
  simp only [Option.ite_none_right_eq_some, Option.some.injEq] at hEq
  obtain ⟨rfl, rfl⟩ := hEq
  exact hc

theorem replaceFirst_cons (f g : Field) (n new : Node) (cs : List (Field × Node)) :
    Node.setField.replaceFirst f new ((g, n) :: cs) =
      if g = f then (g, new) :: cs else (g, n) :: Node.setField.replaceFirst f new cs := rfl

theorem replaceFirst_map {f g : Field} (h : g ≠ f) (new : Node) (ns : List Node)
    (cs : List (Field × Node)) :
    Node.setField.replaceFirst f new (ns.map (fun n => (g, n)) ++ cs) =
      ns.map (fun n => (g, n)) ++ Node.setField.replaceFirst f new cs := by
  induction ns with
  | nil => rfl
  | cons n ns ih => rw [List.map_cons, List.cons_append, replaceFirst_cons, if_neg h, ih]; rfl

/-- Replacing a child leaves the other fields alone. -/
theorem filed_replaceFirst {f g : Field} (h : g ≠ f) (new : Node) (cs : List (Field × Node)) :
    filed g (Node.setField.replaceFirst f new cs) = filed g cs := by
  induction cs with
  | nil => rfl
  | cons c cs ih =>
    obtain ⟨e, n⟩ := c
    rw [replaceFirst_cons]
    split
    · rename_i hField
      rw [filed_cons, filed_cons, if_neg (hField ▸ h.symm), if_neg (hField ▸ h.symm)]
    · rw [filed_cons, filed_cons, ih]

/-- The first child of a field, with what stands before and after it. -/
theorem exists_split_of_filed {f : Field} {old : Node} {rest : List Node}
    {cs : List (Field × Node)} (h : filed f cs = old :: rest) :
    ∃ front back, cs = front ++ (f, old) :: back ∧ ∀ new : Node,
      Node.setField.replaceFirst f new cs = front ++ (f, new) :: back := by
  induction cs with
  | nil => cases h
  | cons c cs ih =>
    obtain ⟨g, n⟩ := c
    rw [filed_cons] at h
    split at h
    · rename_i hg
      obtain ⟨rfl, -⟩ := List.cons.inj h
      exact ⟨[], cs, by simp [hg], fun new => by simp [replaceFirst_cons, hg]⟩
    · rename_i hg
      obtain ⟨front, back, rfl, hReplace⟩ := ih h
      exact ⟨(g, n) :: front, back, rfl, fun new => by
        rw [replaceFirst_cons, if_neg hg, hReplace, List.cons_append]⟩

/-- Names and calls. -/
def NodeKind.isLeaf : NodeKind → Bool
  | .name _ => true
  | .call _ => true
  | _ => false

namespace Node

/-- Induction over nodes through their children and their grandchildren. -/
theorem induct_deep {P : Node → Prop} (token : ∀ t, P (.token t))
    (branch : ∀ k cs, (∀ c ∈ cs, P c.2) → (∀ c ∈ cs, ∀ d ∈ c.2.children, P d.2) →
      P (.branch k cs)) (n : Node) : P n := by
  suffices h : P n ∧ ∀ c ∈ n.children, P c.2 from h.1
  induction n using Node.induct with
  | token t => exact ⟨token t, by simp [children]⟩
  | branch k cs ih => exact ⟨branch k cs (fun c hc => (ih c hc).1) fun c hc => (ih c hc).2,
      fun c hc => (ih c hc).1⟩

theorem exists_token_of_form {n : Node} (h : n.form = .token) : ∃ t, n = .token t := by
  cases n with
  | token t => exact ⟨t, rfl⟩
  | branch k cs => cases k <;> cases h

/-- The form of a node tells its kind, but for what a name or a call denotes. -/
theorem exists_children {k : NodeKind} (hLeaf : k.isLeaf = false) {n : Node}
    (h : n.form = k.form) : ∃ cs, n = .branch k cs := by
  cases n with
  | token t => cases k <;> cases h
  | branch k' cs =>
    refine ⟨cs, ?_⟩
    cases k with
    | name _ | call _ => cases hLeaf
    | _ => cases k' <;> first | rfl | cases h

theorem exists_name {n : Node} (h : n.form = .name) : ∃ t cs, n = .branch (.name t) cs := by
  cases n with
  | token t => cases h
  | branch k cs => cases k <;> first | exact ⟨_, cs, rfl⟩ | cases h

end Node

theorem exists_of_admits_one {ns : List Node} (h : Multiplicity.one.admits ns.length) :
    ∃ n, ns = [n] := List.length_eq_one_iff.mp h

theorem exists_of_admits_optional {ns : List Node} (h : Multiplicity.optional.admits ns.length) :
    ∃ n : Option Node, ns = n.toList := by
  cases ns with
  | nil => exact ⟨none, rfl⟩
  | cons n ns =>
    obtain rfl : ns = [] := by simpa [Multiplicity.admits] using h
    exact ⟨some n, rfl⟩

-- ---------------------------------------------------------------------------
-- Type declarations
-- ---------------------------------------------------------------------------

/-- The body of a type with some members. -/
def Node.bodyOf (opening : Token) (members : List Node) (closing : Token) : Node :=
  .branch .classBody ((.opening, .token opening) ::
    (members.map (fun n => (.members, n)) ++ [(.closing, .token closing)]))

@[simp] theorem Node.members_bodyOf (opening closing : Token) (members : List Node) :
    (Node.bodyOf opening members closing).field .members = members := by
  simp [bodyOf, field, children, List.filterMap_map]

/-- The parts of a type declaration that an edit can reach. -/
structure ClassParts where
  modifiers : List Node
  kind : Token
  name : Token
  header : List Node
  /-- The word before the supertype, and the supertype. -/
  extends? : Option (Token × Node)
  tail : List Node
  opening : Token
  members : List Node
  closing : Token

namespace ClassParts

/-- The supertype clause. -/
def clauseOf (c : Token × Node) : Node :=
  .branch .extendsClause [(.keyword, .token c.1), (.supertype, c.2)]

/-- The body. -/
def body (p : ClassParts) : Node :=
  .branch .classBody ((.opening, .token p.opening) ::
    (p.members.map (fun n => (.members, n)) ++ [(.closing, .token p.closing)]))

/-- The children of the declaration. -/
def children (p : ClassParts) : List (Field × Node) :=
  p.modifiers.map (fun n => (.modifiers, n)) ++ (.kind, .token p.kind) :: (.name, .token p.name) ::
    (p.header.map (fun n => (.header, n)) ++
      ((p.extends?.toList.map fun c => (.superclass, clauseOf c)) ++
        (p.tail.map (fun n => (.tail, n)) ++ [(.body, p.body)])))

/-- The declaration made of some parts. -/
def toNode (p : ClassParts) : Node := .branch .typeDeclaration p.children

/-- What stands in the parts that are more than one token. -/
def inner (p : ClassParts) : List Node :=
  p.modifiers ++ (p.header ++ (p.extends?.toList.map Prod.snd ++ (p.tail ++ p.members)))

/-- What stands in each part is well-formed and of the forms asked for there. -/
structure WellFormed (p : ClassParts) : Prop where
  modifiers : ∀ n ∈ p.modifiers, n.form ∈ elementForms ∧ n.WellFormed
  header : ∀ n ∈ p.header, n.form ∈ elementForms ∧ n.WellFormed
  supertype : ∀ c ∈ p.extends?, c.2.form ∈ [Form.name, .parameterized] ∧ c.2.WellFormed
  tail : ∀ n ∈ p.tail, n.form ∈ elementForms ∧ n.WellFormed
  members : ∀ n ∈ p.members, n.form ∈ memberForms ∧ n.WellFormed

end ClassParts

namespace Node.WellFormed

variable {k : NodeKind} {cs : List (Field × Node)}

/-- The children of a well-formed node stand in the order of its slots, so many in each as it
admits, of the forms it asks for, and well-formed themselves. -/
theorem fieldwise (h : WellFormed (.branch k cs)) :
    cs = k.slots.flatMap (fun s => (filed s.field cs).map fun n => (s.field, n)) ∧
      ∀ s ∈ k.slots, s.multiplicity.admits (filed s.field cs).length ∧
        ∀ n ∈ filed s.field cs, n.form ∈ s.forms ∧ WellFormed n := by
  obtain ⟨hOrder, -, hSlots⟩ := h.fills.fieldwise (nodup_fields k)
  refine ⟨hOrder, fun s hs => ⟨(hSlots s hs).1, fun n hn => ⟨(hSlots s hs).2 n hn, ?_⟩⟩⟩
  exact h.child (mem_of_mem_filed hn)

/-- The only child of a slot that takes one token. -/
theorem exists_filed_token (h : WellFormed (.branch k cs)) {f : Field}
    (hs : ⟨f, .one, [.token]⟩ ∈ k.slots) : ∃ t, filed f cs = [.token t] := by
  obtain ⟨hAdmits, hForms⟩ := h.fieldwise.2 _ hs
  obtain ⟨n, hn⟩ := exists_of_admits_one hAdmits
  have hForm : n.form ∈ [Form.token] := (hForms n (by rw [hn]; exact List.mem_cons_self)).1
  obtain ⟨t, rfl⟩ := exists_token_of_form (List.mem_singleton.mp hForm)
  exact ⟨t, hn⟩

/-- The only child of a slot that takes one node of some forms. -/
theorem exists_filed_one (h : WellFormed (.branch k cs)) {f : Field} (forms : List Form)
    (hs : ⟨f, .one, forms⟩ ∈ k.slots) :
    ∃ n, filed f cs = [n] ∧ n.form ∈ forms ∧ WellFormed n := by
  obtain ⟨hAdmits, hForms⟩ := h.fieldwise.2 _ hs
  obtain ⟨n, hn⟩ := exists_of_admits_one hAdmits
  exact ⟨n, hn, hForms n (by rw [hn]; exact List.mem_cons_self)⟩

/-- The children of a slot that takes any number of them. -/
theorem filed_many (h : WellFormed (.branch k cs)) {f : Field} {forms : List Form}
    (hs : ⟨f, .many, forms⟩ ∈ k.slots) : ∀ n ∈ filed f cs, n.form ∈ forms ∧ WellFormed n :=
  (h.fieldwise.2 _ hs).2

/-- A well-formed supertype clause is a word and a type. -/
theorem exists_clause (h : WellFormed (.branch .extendsClause cs)) :
    ∃ c : Token × Node, .branch .extendsClause cs = ClassParts.clauseOf c ∧
      c.2.form ∈ [Form.name, .parameterized] ∧ c.2.WellFormed := by
  obtain ⟨t, ht⟩ := h.exists_filed_token (f := .keyword) (by simp [NodeKind.slots])
  obtain ⟨n, hn, hForm, hChild⟩ :=
    h.exists_filed_one (f := .supertype) [.name, .parameterized] (by simp [NodeKind.slots])
  refine ⟨(t, n), ?_, hForm, hChild⟩
  conv =>
    lhs
    rw [h.fieldwise.1]
  simp [NodeKind.slots, ht, hn, ClassParts.clauseOf]

/-- A well-formed body of a type is made of its members. -/
theorem exists_bodyOf (h : WellFormed (.branch .classBody cs)) :
    ∃ opening closing, .branch .classBody cs = bodyOf opening (filed .members cs) closing := by
  obtain ⟨opening, hOpening⟩ := h.exists_filed_token (f := .opening) (by simp [NodeKind.slots])
  obtain ⟨closing, hClosing⟩ := h.exists_filed_token (f := .closing) (by simp [NodeKind.slots])
  refine ⟨opening, closing, ?_⟩
  conv =>
    lhs
    rw [h.fieldwise.1]
  simp [NodeKind.slots, hOpening, hClosing, bodyOf]

/-- A well-formed type declaration is made of its parts. -/
theorem exists_classParts (h : WellFormed (.branch .typeDeclaration cs)) :
    ∃ p : ClassParts, .branch .typeDeclaration cs = p.toNode ∧ p.WellFormed := by
  obtain ⟨kind, hKind⟩ := h.exists_filed_token (f := .kind) (by simp [NodeKind.slots])
  obtain ⟨name, hName⟩ := h.exists_filed_token (f := .name) (by simp [NodeKind.slots])
  obtain ⟨body, hBody, hBodyForm, hBodyFine⟩ :=
    h.exists_filed_one (f := .body) [.classBody] (by simp [NodeKind.slots])
  obtain ⟨hClauses, hClauseForms⟩ :=
    h.fieldwise.2 ⟨.superclass, .optional, [.extendsClause]⟩ (by simp [NodeKind.slots])
  obtain ⟨clause, hClause⟩ := exists_of_admits_optional hClauses
  have hExtends : ∃ e : Option (Token × Node), clause = e.map ClassParts.clauseOf ∧
      ∀ c ∈ e, c.2.form ∈ [Form.name, .parameterized] ∧ c.2.WellFormed := by
    cases clause with
    | none => exact ⟨none, rfl, by simp⟩
    | some n =>
      obtain ⟨hForm, hFine⟩ := hClauseForms n (by simp [hClause])
      obtain ⟨cs, rfl⟩ := exists_children (k := .extendsClause) rfl (List.mem_singleton.mp hForm)
      obtain ⟨c, hc, hSupertype⟩ := hFine.exists_clause
      exact ⟨some c, congrArg some hc, by rintro _ ⟨⟩; exact hSupertype⟩
  obtain ⟨e, rfl, hSupertype⟩ := hExtends
  obtain ⟨ms, rfl⟩ := exists_children (k := .classBody) rfl (List.mem_singleton.mp hBodyForm)
  obtain ⟨opening, closing, hBodyEq⟩ := hBodyFine.exists_bodyOf
  refine ⟨⟨filed .modifiers cs, kind, name, filed .header cs, e, filed .tail cs, opening,
    filed .members ms, closing⟩, ?_, ?_⟩
  · conv =>
      lhs
      rw [h.fieldwise.1]
    rw [hBodyEq] at hBody
    cases e <;> simp [ClassParts.toNode, ClassParts.children, ClassParts.body, bodyOf,
      NodeKind.slots, hKind, hName, hBody, hClause]
  · exact ⟨h.filed_many (by simp [NodeKind.slots]), h.filed_many (by simp [NodeKind.slots]),
      hSupertype, h.filed_many (by simp [NodeKind.slots]),
      hBodyFine.filed_many (by simp [NodeKind.slots])⟩

end Node.WellFormed

namespace ClassParts

/-- What stands in a part is a child or a grandchild of the declaration. -/
theorem mem_inner {p : ClassParts} {n : Node} (h : n ∈ p.inner) :
    (∃ c ∈ p.children, c.2 = n) ∨ ∃ c ∈ p.children, ∃ d ∈ c.2.children, d.2 = n := by
  simp only [inner, List.mem_append, List.mem_map, Option.mem_toList] at h
  rcases h with h | h | ⟨c, hc, rfl⟩ | h | h
  · exact Or.inl ⟨(.modifiers, n), by simp [children, h], rfl⟩
  · exact Or.inl ⟨(.header, n), by simp [children, h], rfl⟩
  · refine Or.inr ⟨(.superclass, clauseOf c), ?_, (.supertype, c.2), ?_, rfl⟩
    · simp [children, Option.mem_def.mp hc]
    · simp [clauseOf, Node.children]
  · exact Or.inl ⟨(.tail, n), by simp [children, h], rfl⟩
  · refine Or.inr ⟨(.body, p.body), by simp [children], (.members, n), ?_, rfl⟩
    simp [body, Node.children, h]

end ClassParts

namespace ClassParts

variable (p : ClassParts)

@[simp] theorem filed_superclass :
    filed .superclass p.children = p.extends?.toList.map clauseOf := by
  simp [children, filed, List.filterMap_map]

@[simp] theorem filed_body : filed .body p.children = [p.body] := by
  simp [children, filed, List.filterMap_map]

@[simp] theorem filed_name : filed .name p.children = [.token p.name] := by
  simp [children, filed, List.filterMap_map]

@[simp] theorem members_toNode : p.toNode.members = p.members := by
  simp [Node.members, Node.field?, toNode, body, filed_cons, filed_map]

/-- The supertype of a declaration that has one is replaced. -/
theorem setField_superclass {c : Token × Node} (h : p.extends? = some c) (new : Token × Node) :
    p.toNode.setField .superclass (clauseOf new) = { p with extends? := some new }.toNode := by
  simp [toNode, children, Node.setField, replaceFirst_cons, replaceFirst_map, h, body]

/-- The members of a declaration are replaced with its body. -/
theorem setField_body (ms : List Node) :
    p.toNode.setField .body { p with members := ms }.body = { p with members := ms }.toNode := by
  obtain ⟨modifiers, kind, name, header, extends?, tail, opening, members, closing⟩ := p
  cases extends? <;>
    simp [toNode, children, Node.setField, replaceFirst_cons, replaceFirst_map, body]

variable {p}

theorem wellFormed_clauseOf {c : Token × Node}
    (h : c.2.form ∈ [Form.name, .parameterized] ∧ c.2.WellFormed) : (clauseOf c).WellFormed := by
  refine .branch ?_ (by simpa using ⟨.token _, h.2⟩)
  exact .single (s := ⟨.keyword, .one, [.token]⟩) (by simp) (by simp [Node.form])
    (.single (s := ⟨.supertype, .one, [.name, .parameterized]⟩) (by simp) h.1 (.refl _))

/-- Children of one field are well-formed, and their tags go into its slot. -/
theorem tags_of_forms {f : Field} {forms : List Form} {ns : List Node}
    (h : ∀ n ∈ ns, n.form ∈ forms ∧ n.WellFormed) :
    ∀ t ∈ (ns.map fun n => (f, n)).map tag, t.1 = f ∧ t.2 ∈ forms := by
  intro t ht
  obtain ⟨n, hn, rfl⟩ : ∃ n ∈ ns, (f, n.form) = t := by simpa [tag] using ht
  exact ⟨rfl, (h n hn).1⟩

namespace WellFormed

theorem body (h : p.WellFormed) : p.body.WellFormed := by
  refine .branch ?_ ?_
  · simp only [List.map_cons, List.map_append]
    refine .single (s := ⟨.opening, .one, [.token]⟩) (by simp) (by simp [Node.form]) ?_
    refine (fills_many (s := ⟨.members, .many, memberForms⟩) rfl (tags_of_forms h.members)).append ?_
    exact .skip (by simp)
      (.single (s := ⟨.closing, .one, [.token]⟩) (by simp) (by simp [Node.form]) (.refl _))
  · intro c hc
    simp only [List.mem_cons, List.mem_append, List.mem_map, List.not_mem_nil, or_false] at hc
    rcases hc with rfl | ⟨n, hn, rfl⟩ | rfl
    · exact .token _
    · exact (h.members n hn).2
    · exact .token _

/-- The declaration made of well-formed parts is well-formed. -/
theorem toNode (h : p.WellFormed) : p.toNode.WellFormed := by
  have hSupertype (ss : List Slot) : Fills (⟨.superclass, .optional, [.extendsClause]⟩ :: ss)
      ((p.extends?.toList.map fun c => (Field.superclass, clauseOf c)).map tag) ss := by
    cases p.extends? with
    | none => exact .skip (by simp) (.refl _)
    | some c =>
      exact .single (s := ⟨.superclass, .optional, [.extendsClause]⟩) (by simp)
        (by simp [clauseOf, Node.form, NodeKind.form]) (.refl _)
  refine .branch ?_ ?_
  · simp only [children, List.map_cons, List.map_append]
    refine (fills_many (s := ⟨.modifiers, .many, elementForms⟩) rfl
      (tags_of_forms h.modifiers)).append (.skip (by simp) ?_)
    refine .single (s := ⟨.kind, .one, [.token]⟩) (by simp) (by simp [Node.form]) ?_
    refine .single (s := ⟨.name, .one, [.token]⟩) (by simp) (by simp [Node.form]) ?_
    refine (fills_many (s := ⟨.header, .many, elementForms⟩) rfl
      (tags_of_forms h.header)).append (.skip (by simp) ?_)
    refine (hSupertype _).append ?_
    refine (fills_many (s := ⟨.tail, .many, elementForms⟩) rfl
      (tags_of_forms h.tail)).append (.skip (by simp) ?_)
    exact .single (s := ⟨.body, .one, [.classBody]⟩) (by simp)
      (by simp [ClassParts.body, Node.form, NodeKind.form]) (.refl _)
  · intro c hc
    simp only [children, List.mem_cons, List.mem_append, List.mem_map, List.not_mem_nil,
      or_false] at hc
    rcases hc with ⟨n, hn, rfl⟩ | rfl | rfl | ⟨n, hn, rfl⟩ | ⟨n, hn, rfl⟩ | ⟨n, hn, rfl⟩ | rfl
    · exact (h.modifiers n hn).2
    · exact .token _
    · exact .token _
    · exact (h.header n hn).2
    · exact wellFormed_clauseOf (h.supertype n (by simpa using hn))
    · exact (h.tail n hn).2
    · exact h.body

end WellFormed

/-- What stands in the parts is well-formed. -/
theorem WellFormed.inner {p : ClassParts} (h : p.WellFormed) : ∀ n ∈ p.inner, n.WellFormed := by
  intro n hn
  simp only [ClassParts.inner, List.mem_append, List.mem_map, Option.mem_toList] at hn
  rcases hn with hn | hn | ⟨c, hc, rfl⟩ | hn | hn
  · exact (h.modifiers n hn).2
  · exact (h.header n hn).2
  · exact (h.supertype c hc).2
  · exact (h.tail n hn).2
  · exact (h.members n hn).2

end ClassParts

/-- Induction over well-formed nodes, where a type declaration is taken apart. -/
theorem Node.WellFormed.induct_parts {P : ∀ n : Node, n.WellFormed → Prop}
    (token : ∀ t, P (.token t) (.token t))
    (branch : ∀ k cs, k ≠ .typeDeclaration → ∀ h : (Node.branch k cs).WellFormed,
      (∀ c (hc : c ∈ cs), P c.2 (h.child hc)) → P (.branch k cs) h)
    (declaration : ∀ p : ClassParts, ∀ h : p.WellFormed,
      (∀ n (hn : n ∈ p.inner), P n (h.inner n hn)) → P p.toNode h.toNode)
    {n : Node} (h : n.WellFormed) : P n h := by
  induction n using Node.induct_deep with
  | token t => exact token t
  | branch k cs ih ihDeep =>
    by_cases hk : k = .typeDeclaration
    · subst hk
      obtain ⟨p, hp, hParts⟩ := h.exists_classParts
      obtain rfl : cs = p.children := by
        rw [ClassParts.toNode] at hp
        exact (Node.branch.inj hp).2
      refine declaration p hParts ?_
      intro n hn
      rcases ClassParts.mem_inner hn with ⟨c, hc, rfl⟩ | ⟨c, hc, d, hd, rfl⟩
      · exact ih c hc (h.child hc)
      · exact ihDeep c hc d hd ((h.child hc).child_of_mem hd)
    · exact branch k cs hk h fun c hc => ih c hc (h.child hc)

-- ---------------------------------------------------------------------------
-- Maps over trees
-- ---------------------------------------------------------------------------

/-- A map over trees that leaves tokens and forms alone and goes on below a node, except for names,
calls and type declarations, which it may treat in its own way. -/
structure Descends (g : Node → Node) : Prop where
  token : ∀ t, g (.token t) = .token t
  form : ∀ n, (g n).form = n.form
  branch : ∀ k cs, k.isLeaf = false → k ≠ .typeDeclaration →
    g (.branch k cs) = .branch k (cs.map fun c => (c.1, g c.2))

namespace ClassParts

/-- The parts with a map applied to whatever stands in them. -/
def map (g : Node → Node) (p : ClassParts) : ClassParts :=
  { p with
    modifiers := p.modifiers.map g
    header := p.header.map g
    extends? := p.extends?.map fun c => (c.1, g c.2)
    tail := p.tail.map g
    members := p.members.map g }

variable {g : Node → Node}

theorem body_map (hg : Descends g) (p : ClassParts) : (p.map g).body = g p.body := by
  rw [ClassParts.body.eq_1 p, hg.branch .classBody _ rfl (by simp)]
  simp [body, map, hg.token, Function.comp_def]

/-- Mapping the children of a declaration is mapping its parts. -/
theorem children_map (hg : Descends g) (p : ClassParts) :
    (p.map g).children = p.children.map fun c => (c.1, g c.2) := by
  have hClause (c : Token × Node) : g (clauseOf c) = clauseOf (c.1, g c.2) := by
    rw [clauseOf, hg.branch .extendsClause _ rfl (by simp)]
    simp [clauseOf, hg.token]
  obtain ⟨modifiers, kind, name, header, extends?, tail, opening, members, closing⟩ := p
  simp only [children, body_map hg]
  cases extends? <;> simp [map, hg.token, hClause, Function.comp_def]

theorem WellFormed.map (hg : Descends g) {p : ClassParts} (h : p.WellFormed)
    (hFine : ∀ n ∈ p.inner, (g n).WellFormed) : (p.map g).WellFormed := by
  have hList {forms : List Form} {ns : List Node} (hns : ∀ n ∈ ns, n.form ∈ forms ∧ n.WellFormed)
      (hInner : ∀ n ∈ ns, n ∈ p.inner) : ∀ n ∈ ns.map g, n.form ∈ forms ∧ n.WellFormed := by
    intro n hn
    obtain ⟨m, hm, rfl⟩ := List.mem_map.mp hn
    exact ⟨by rw [hg.form]; exact (hns m hm).1, hFine m (hInner m hm)⟩
  refine ⟨hList h.modifiers ?_, hList h.header ?_, ?_, hList h.tail ?_, hList h.members ?_⟩
  · exact fun n hn => by simp [ClassParts.inner, hn]
  · exact fun n hn => by simp [ClassParts.inner, hn]
  · intro c hc
    obtain ⟨d, hd, rfl⟩ := Option.map_eq_some_iff.mp hc
    exact ⟨by simpa [hg.form] using (h.supertype d hd).1, hFine _ (by simp [ClassParts.inner, hd])⟩
  · exact fun n hn => by simp [ClassParts.inner, hn]
  · exact fun n hn => by simp [ClassParts.inner, hn]

end ClassParts

-- ---------------------------------------------------------------------------
-- Names, calls and units
-- ---------------------------------------------------------------------------

namespace Node

/-- The name made of some tokens. -/
def nameOf (type : Option TypeName) (ts : List Token) : Node :=
  .branch (.name type) (ts.map fun t => (.tokens, .token t))

@[simp] theorem tokens_nameOf (type : Option TypeName) (ts : List Token) :
    (nameOf type ts).tokens = ts := by
  show tokensOf _ = ts
  rw [tokensOf_eq, List.flatMap_map]
  simp [tokens]

/-- The parts of a name are the spellings of its identifiers. -/
theorem nameParts_nameOf (type : Option TypeName) (ts : List Token) :
    (nameOf type ts).nameParts =
      ts.filterMap fun t => if t.kind = .identifier then some t.text else none := by
  simp [nameParts, nameOf, filed, List.filterMap_map]

theorem wellFormed_nameOf (type : Option TypeName) (ts : List Token) :
    (nameOf type ts).WellFormed := by
  refine .branch (fills_only rfl ?_) ?_
  · intro u hu
    obtain ⟨t, -, rfl⟩ : ∃ t ∈ ts, (Field.tokens, Form.token) = u := by
      simpa [tag, form] using hu
    exact ⟨rfl, by simp⟩
  · intro c hc
    obtain ⟨t, -, rfl⟩ := List.mem_map.mp hc
    exact .token t

end Node

namespace Node.WellFormed

variable {cs : List (Field × Node)}

/-- A well-formed name is made of tokens. -/
theorem exists_tokens {t : Option TypeName} (h : WellFormed (.branch (.name t) cs)) :
    ∃ ts : List Token, cs = ts.map fun t => (.tokens, .token t) := by
  obtain ⟨hOrder, -⟩ := h.fieldwise
  have hTokens : ∀ n ∈ filed .tokens cs, n.form ∈ [Form.token] ∧ WellFormed n :=
    h.filed_many (by simp [NodeKind.slots])
  have hAll : ∀ ns : List Node, (∀ n ∈ ns, n.form ∈ [Form.token] ∧ WellFormed n) →
      ∃ ts : List Token, ns = ts.map .token := by
    intro ns hns
    induction ns with
    | nil => exact ⟨[], rfl⟩
    | cons n ns ih =>
      obtain ⟨ts, rfl⟩ := ih fun m hm => hns m (List.mem_cons_of_mem _ hm)
      obtain ⟨t, rfl⟩ := exists_token_of_form (List.mem_singleton.mp (hns n List.mem_cons_self).1)
      exact ⟨t :: ts, rfl⟩
  obtain ⟨ts, hts⟩ := hAll _ hTokens
  refine ⟨ts, ?_⟩
  rw [hOrder]
  simp [NodeKind.slots, hts]

/-- The name before the arguments of a well-formed type. -/
theorem exists_base (h : WellFormed (.branch .parameterized cs)) :
    ∃ t ts, filed .base cs = [nameOf t ts] := by
  obtain ⟨n, hn, hForm, hFine⟩ := h.exists_filed_one (f := .base) [.name] (by simp [NodeKind.slots])
  obtain ⟨t, ds, rfl⟩ := exists_name (List.mem_singleton.mp hForm)
  obtain ⟨ts, rfl⟩ := hFine.exists_tokens
  exact ⟨t, ts, hn⟩

/-- A well-formed call is one token. -/
theorem exists_callee {m : Option MethodType} (h : WellFormed (.branch (.call m) cs)) :
    ∃ t, cs = [(.callee, .token t)] := by
  obtain ⟨t, ht⟩ := h.exists_filed_token (f := .callee) (by simp [NodeKind.slots])
  refine ⟨t, ?_⟩
  rw [h.fieldwise.1]
  simp [NodeKind.slots, ht]

/-- A well-formed unit is made of its parts. -/
theorem toUnit_unitParts (h : WellFormed (.branch .unit cs)) :
    (Node.branch .unit cs).unitParts.toUnit = .branch .unit cs := by
  have hPackage : (filed .package cs).head?.toList = filed .package cs := by
    obtain ⟨n, hn⟩ := exists_of_admits_optional
      (h.fieldwise.2 ⟨.package, .optional, [.packageDeclaration]⟩ (by simp [NodeKind.slots])).1
    rw [hn]
    cases n <;> rfl
  conv =>
    rhs
    rw [h.fieldwise.1]
  simp [NodeKind.slots, unitParts, UnitParts.toUnit, field?, hPackage]

end Node.WellFormed

end SourceMigration
