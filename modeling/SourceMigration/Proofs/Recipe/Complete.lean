import Mathlib.Data.List.Forall2
import SourceMigration.Proofs.Recipe.Migrated

/-!
# SourceMigration — the migration leaves nothing out

Every node of a migrated tree is what the migration made of some node. So whatever the migration
never makes does not occur at any depth: no class that extends the legacy type, no member that the
table would drop or rename, and, if some class is moved, no name and no call of a legacy type.

The calls of a migrated tree are those of the resolved one in their order, each with its new
method, except for those that go with a dropped member or with an exchanged supertype.

## Results

* `mem_walk_migrated` — the nodes of a migrated tree are made by the migration.
* `calls_migrated`    — the calls of a migrated tree are those spared, each with its new method.
* `run_complete`      — a run on a resolved unit leaves nothing out.
-/

namespace SourceMigration

namespace Appender

-- ---------------------------------------------------------------------------
-- The nodes of a migrated tree
-- ---------------------------------------------------------------------------

variable {moved : Bool}

/-- The nodes of a migrated tree are made by the migration. -/
theorem mem_walk_migrated {n : Node} (h : n.WellFormed) :
    ∀ m ∈ (migrated moved n).walk, ∃ n' : Node, n'.WellFormed ∧ m = migrated moved n' := by
  -- the node itself is made of `n`, and the others are below what is made of its children
  have hBelow {n : Node} {k : NodeKind} {cs : List (Field × Node)} (h : n.WellFormed)
      (hNode : migrated moved n = .branch k (cs.map fun c => (c.1, migrated moved c.2)))
      (ih : ∀ c ∈ cs, ∀ m ∈ (migrated moved c.2).walk,
        ∃ n' : Node, n'.WellFormed ∧ m = migrated moved n') :
      ∀ m ∈ (migrated moved n).walk, ∃ n' : Node, n'.WellFormed ∧ m = migrated moved n' := by
    intro m hm
    rw [hNode, Node.walk, Node.walkOf_eq, List.flatMap_map] at hm
    rcases List.mem_cons.mp hm with rfl | hm
    · exact ⟨n, h, hNode.symm⟩
    · obtain ⟨c, hc, hm⟩ := List.mem_flatMap.mp hm
      exact ih c hc m hm
  refine induct_migrated (P := fun n => ∀ m ∈ (migrated moved n).walk,
    ∃ n' : Node, n'.WellFormed ∧ m = migrated moved n') ?_ ?_ ?_ h
  · intro t m hm
    rw [migrated_token, Node.walk, List.mem_singleton] at hm
    exact ⟨.token t, .token t, by rw [hm, migrated_token]⟩
  · intro k cs hk hFine ih
    by_cases hLeaf : k.isLeaf = true
    · intro m hm
      have hForm := (descends_migrated moved).form (.branch k cs)
      have hMigrated : (migrated moved (.branch k cs)).WellFormed := by
        rw [migrated_leaf moved hLeaf hFine]
        split
        · exact wellFormed_editLeaf hLeaf hFine
        · exact hFine
      cases hNode : migrated moved (.branch k cs) with
      | token t =>
        rw [hNode] at hForm
        cases k <;> cases hForm
      | branch l ds =>
        rw [hNode] at hForm hMigrated hm
        rw [Node.walk, Node.walkOf_eq] at hm
        rcases List.mem_cons.mp hm with rfl | hm
        · exact ⟨.branch k cs, hFine, hNode.symm⟩
        · obtain ⟨c, hc, hm⟩ := List.mem_flatMap.mp hm
          have hLeaf' : l.isLeaf = true := (Node.isLeaf_of_form hForm).trans hLeaf
          obtain ⟨t, ht⟩ := hMigrated.token_of_leaf hLeaf' hc
          rw [ht, Node.walk, List.mem_singleton] at hm
          exact ⟨.token t, .token t, by rw [hm, migrated_token]⟩
    · exact hBelow hFine (migrated_branch moved (by simpa using hLeaf) hk cs) ih
  · intro p hp ih
    exact hBelow hp.toNode (migrated_declaration moved hp) ih

-- ---------------------------------------------------------------------------
-- What the migration never makes
-- ---------------------------------------------------------------------------

/-- A call of a method that a legacy type declares or that returns one. -/
def isLegacyCall : Node → Bool
  | .branch (.call (some m)) _ =>
    [legacyEvent, legacyLayout].contains m.declaring ||
      m.returns.any [legacyEvent, legacyLayout].contains
  | _ => false

/-- The type that a name denotes in the end. -/
def typeAfter (moved : Bool) (t : TypeName) : TypeName := if moved then newType t else t

theorem typeAfter_eq_skeleton {t : TypeName} (h : typeAfter moved t = skeleton) : t = skeleton := by
  cases moved with
  | false => exact h
  | true =>
    simp only [typeAfter, newType, if_true] at h
    split at h
    · exact absurd h (by decide)
    · split at h
      · exact absurd h (by decide)
      · exact h

theorem exists_migrated_name (moved : Bool) (t : Option TypeName) (ts : List Token) :
    ∃ ts', migrated moved (Node.nameOf t ts) = Node.nameOf (t.map (typeAfter moved)) ts' := by
  have hLeaf : migrated moved (Node.nameOf t ts) =
      if moved then editLeaf (Node.nameOf t ts) else Node.nameOf t ts :=
    migrated_leaf moved rfl (Node.wellFormed_nameOf t ts)
  rw [hLeaf]
  cases moved with
  | false => exact ⟨ts, by cases t <;> rfl⟩
  | true =>
    obtain ⟨ts', hts'⟩ := exists_editLeaf_name t ts
    exact ⟨ts', by cases t <;> exact hts'⟩

/-- Only names and types with arguments denote anything. -/
theorem denoted_eq_none {n : Node} (hName : n.form ≠ .name) (hBase : n.form ≠ .parameterized) :
    n.denoted? = none := by
  cases n with
  | token t => rfl
  | branch k cs => cases k <;> first | rfl | exact absurd rfl hName | exact absurd rfl hBase

/-- What a type denotes after the migration. -/
theorem denoted_migrated {n : Node} (h : n.WellFormed) :
    (migrated moved n).denoted? = n.denoted?.map (typeAfter moved) := by
  have hForm := (descends_migrated moved).form n
  by_cases hName : n.form = .name
  · obtain ⟨t, cs, rfl⟩ := Node.exists_name hName
    obtain ⟨ts, rfl⟩ := h.exists_tokens
    obtain ⟨ts', hts'⟩ := exists_migrated_name moved t ts
    rw [← Node.nameOf, hts']
    rfl
  · by_cases hBase : n.form = .parameterized
    · obtain ⟨cs, rfl⟩ := Node.exists_children (k := .parameterized) rfl hBase
      obtain ⟨t, ts, hFiled⟩ := h.exists_base
      obtain ⟨ts', hts'⟩ := exists_migrated_name moved t ts
      rw [migrated_branch moved (k := .parameterized) rfl (by simp)]
      simp only [Node.nameOf] at hFiled hts'
      simp [Node.denoted?, Node.field?, filed_map_snd, hFiled, hts']
    · rw [denoted_eq_none hName hBase, denoted_eq_none (hForm ▸ hName) (hForm ▸ hBase)]
      rfl

/-- What holds of every node of a migrated tree, with whatever trivia before it. -/
structure Complete (moved : Bool) (n : Node) : Prop where
  /-- No class extends the legacy type. -/
  supertype : Supertype.isOf skeleton n = false
  /-- No class whose supertype is known has a method that the table drops or renames by its name. -/
  members : Supertype.isKnown n = true →
    ∀ m ∈ n.members, m.form = .method → m.declaredName ∉ ["requiresLayout", "close"]
  /-- If some class of the unit is moved, no name is one of a legacy type. -/
  name : moved = true → isLegacyName n = false
  /-- Nor has a call a method that a legacy type declares or that returns one. -/
  call : moved = true → isLegacyCall n = false

theorem newType_ne_legacy (t : TypeName) : newType t ≠ legacyEvent ∧ newType t ≠ legacyLayout := by
  unfold newType
  split
  · exact ⟨by decide, by decide⟩
  · rename_i hEvent
    split
    · exact ⟨by decide, by decide⟩
    · rename_i hLayout
      exact ⟨hEvent, hLayout⟩

/-- A class of which nothing is known does not extend the legacy type. -/
theorem isOf_of_isKnown {n : Node} (h : Supertype.isKnown n = false) :
    Supertype.isOf skeleton n = false := by
  cases n with
  | token t => rfl
  | branch k cs =>
    cases k with
    | typeDeclaration =>
      simp only [Supertype.isKnown, Option.isSome_eq_false_iff, Option.isNone_iff_eq_none] at h
      simp [Supertype.isOf, h]
    | _ => rfl

theorem isLegacyCall_of_form {n : Node} (h : n.form ≠ .call) : isLegacyCall n = false := by
  cases n with
  | token t => rfl
  | branch k cs => cases k <;> first | rfl | exact absurd rfl h

theorem isLegacyName_of_form {n : Node} (h : n.form ≠ .name) : isLegacyName n = false := by
  cases n with
  | token t => rfl
  | branch k cs => cases k <;> first | rfl | exact absurd rfl h

/-- A node that is no class is complete, unless a legacy type is to be looked for in it. -/
theorem complete_of_form {moved : Bool} {n : Node} (hClass : n.form ≠ .typeDeclaration)
    (hName : moved = true → n.form ≠ .name) (hCall : moved = true → n.form ≠ .call) :
    Complete moved n where
  supertype := isOf_of_isKnown (isKnown_of_form hClass)
  members hKnown := by
    rw [isKnown_of_form hClass] at hKnown
    cases hKnown
  name hMoved := isLegacyName_of_form (hName hMoved)
  call hMoved := isLegacyCall_of_form (hCall hMoved)

theorem complete_nameOf (t : Option TypeName) (ts : List Token) :
    Complete true (Node.nameOf (t.map newType) ts) where
  supertype := rfl
  members hKnown := by cases hKnown
  name _ := by
    cases t with
    | none => rfl
    | some t => simp [Node.nameOf, isLegacyName, newType_ne_legacy t]
  call _ := rfl

theorem complete_call (m : Option MethodType) (t : Token) :
    Complete true (.branch (.call (m.map newMethod)) [(.callee, .token t)]) where
  supertype := rfl
  members hKnown := by cases hKnown
  name _ := rfl
  call _ := by
    cases m with
    | none => rfl
    | some m =>
      cases hReturns : m.returns with
      | none => simp [isLegacyCall, newMethod, hReturns, newType_ne_legacy m.declaring]
      | some t =>
        simp [isLegacyCall, newMethod, hReturns, newType_ne_legacy m.declaring, newType_ne_legacy t]

/-- What becomes of a method: the hook for a layout goes, as does closing that does nothing; other
closing is stopping. -/
theorem decide_method (cs : List (Field × Node)) :
    recipe.table.decide (.branch .method cs) =
      if (Node.branch .method cs).declaredName = "requiresLayout" then .drop
      else if (Node.branch .method cs).declaredName = "close" then
        if MemberTable.hasEmptyBody (.branch .method cs) then .drop else .rename "stop"
      else .keep := by
  generalize hName : (Node.branch .method cs).declaredName = name
  unfold MemberTable.decide
  simp only [hName]
  by_cases hRemove : name = "requiresLayout"
  · simp [recipe, hRemove]
  · by_cases hClose : name = "close"
    · simp [recipe, hClose]
    · have hLookup : List.lookup name [("close", "stop")] = none := by
        rw [List.lookup_cons, beq_eq_false_iff_ne.mpr hClose]
        rfl
      simp [recipe, hRemove, hClose, hLookup]

/-- The names of the methods that are left of the members of a class. -/
theorem declaredName_of_settled {ms : List Node}
    (h : ∀ m ∈ ms, m.form ∈ memberForms ∧ m.WellFormed) {n : Node}
    (hn : n ∈ recipe.table.settled ms) (hForm : n.form = .method) :
    n.declaredName ∉ ["requiresLayout", "close"] := by
  obtain ⟨m, hm, hMethod, hDecision⟩ := MemberTable.exists_decision_of_settled h hn hForm
  obtain ⟨cs, rfl⟩ := Node.exists_children (k := .method) rfl hMethod
  rw [decide_method] at hDecision
  by_cases hRemove : (Node.branch .method cs).declaredName = "requiresLayout"
  · simp [hRemove] at hDecision
  · by_cases hClose : (Node.branch .method cs).declaredName = "close"
    · by_cases hEmpty : MemberTable.hasEmptyBody (.branch .method cs) = true
      · simp [hClose, hEmpty] at hDecision
      · have hStop : n.declaredName = "stop" := by
          simpa [hClose, hEmpty, eq_comm] using hDecision
        simp [hStop]
    · have hSame : n.declaredName = (Node.branch .method cs).declaredName := by
        simpa [hRemove, hClose] using hDecision
      simp [hSame, hRemove, hClose]

section Class

variable {p : ClassParts} (h : p.WellFormed)

/-- After its edit, no class extends the legacy type. -/
theorem denoted_editParts : (recipe.editParts newSupertype p).denoted? ≠ some skeleton := by
  intro hSkeleton
  unfold Recipe.editParts at hSkeleton
  split at hSkeleton
  · rename_i hUnknown
    rw [hSkeleton] at hUnknown
    cases hUnknown
  · cases hExtends : p.extends? with
    | none => simp [ClassParts.denoted?, hExtends] at hSkeleton
    | some c =>
      simp only [ClassParts.denoted?, hExtends, Option.map_some, Option.bind_some,
        Recipe.movedSupertype] at hSkeleton
      split at hSkeleton
      · have hBase : base = skeleton := Option.some.inj hSkeleton
        exact absurd hBase (by decide)
      · rename_i hOther
        exact hOther hSkeleton

include h

/-- After its edit, no class whose supertype is known has a method that closes or asks for a layout. -/
theorem members_editParts (hKnown : (recipe.editParts newSupertype p).denoted?.isSome = true) :
    ∀ m ∈ (recipe.editParts newSupertype p).members, m.form = .method →
      m.declaredName ∉ ["requiresLayout", "close"] := by
  unfold Recipe.editParts at hKnown ⊢
  split
  · rename_i hUnknown
    rw [if_pos hUnknown, Option.isNone_iff_eq_none.mp hUnknown] at hKnown
    cases hKnown
  · exact fun m hm hForm => declaredName_of_settled h.members hm hForm

theorem denoted_map_migrated :
    (p.map (migrated moved)).denoted? = p.denoted?.map (typeAfter moved) := by
  rw [ClassParts.denoted?, ClassParts.denoted?, ClassParts.map]
  cases hExtends : p.extends? with
  | none => rfl
  | some c => exact denoted_migrated (h.supertype c hExtends).2

/-- What the migration makes of a class is complete. -/
theorem complete_class (l : String) :
    Complete moved
      (((recipe.editParts newSupertype p).map (migrated moved)).withLeading l).toNode := by
  have hTree : newSupertype.form ∈ [Form.name, .parameterized] ∧ newSupertype.WellFormed :=
    ⟨by decide, wellFormed_newSupertype⟩
  have hEdited := recipe.wellFormed_editParts h hTree
  have hSupertype := denoted_editParts (p := p)
  have hMembers := members_editParts h
  generalize recipe.editParts newSupertype p = q at hEdited hSupertype hMembers
  have hDenoted : Supertype.denoted? ((q.map (migrated moved)).withLeading l).toNode =
      q.denoted?.map (typeAfter moved) := by
    rw [ClassParts.denoted_toNode, ClassParts.denoted_withLeading, denoted_map_migrated hEdited]
  refine ⟨?_, ?_, fun _ => rfl, fun _ => rfl⟩
  · show (Supertype.denoted? (ClassParts.toNode _) == some skeleton) = false
    rw [hDenoted, beq_eq_false_iff_ne]
    intro hSkeleton
    obtain ⟨t, ht, hAfter⟩ := Option.map_eq_some_iff.mp hSkeleton
    exact hSupertype (ht.trans (congrArg some (typeAfter_eq_skeleton hAfter)))
  · intro hKnown m hm hForm
    replace hKnown : (Supertype.denoted? (ClassParts.toNode _)).isSome = true := hKnown
    rw [hDenoted, Option.isSome_map] at hKnown
    rw [ClassParts.members_toNode, ClassParts.members_withLeading] at hm
    obtain ⟨m', hm', rfl⟩ := List.mem_map.mp hm
    rw [(descends_migrated moved).form] at hForm
    obtain ⟨cs, rfl⟩ := Node.exists_children (k := .method) rfl hForm
    rw [MemberTable.declaredName_descends (descends_migrated moved) (hEdited.members _ hm').2]
    exact hMembers hKnown _ hm' rfl

end Class

/-- Whatever the migration makes is complete. -/
theorem complete_migrated {n : Node} (h : n.WellFormed) (l : String) :
    Complete moved ((migrated moved n).withLeading l) := by
  have hForm : ((migrated moved n).withLeading l).form = n.form := by
    rw [Node.form_withLeading, (descends_migrated moved).form]
  by_cases hClass : n.form = .typeDeclaration
  · obtain ⟨cs, rfl⟩ := Node.exists_children (k := .typeDeclaration) rfl hClass
    obtain ⟨p, hp, hParts⟩ := h.exists_classParts
    rw [hp, migrated_toNode moved hParts, ClassParts.withLeading_toNode]
    exact complete_class hParts l
  · rw [← hForm] at hClass
    cases n with
    | token t =>
      have hToken : ((migrated moved (.token t)).withLeading l).form = .token := hForm
      exact complete_of_form hClass (fun _ => by simp [hToken]) fun _ => by simp [hToken]
    | branch k cs =>
      by_cases hLeaf : k.isLeaf = true
      · cases moved with
        | false => exact complete_of_form hClass (by simp) (by simp)
        | true =>
          rw [migrated_leaf true hLeaf h, if_pos rfl]
          rcases Pass.exists_of_leaf hLeaf h with ⟨t, ts, hEq⟩ | ⟨m, t, hEq⟩
          · obtain ⟨ts', hts'⟩ := exists_editLeaf_name t ts
            rw [hEq, hts', Node.withLeading_nameOf]
            exact complete_nameOf t _
          · rw [hEq, editLeaf_call]
            exact complete_call m _
      · have hNone {form : Form} (hName : form = .name ∨ form = .call) :
            ((migrated moved (.branch k cs)).withLeading l).form ≠ form := by
          rw [hForm]
          rintro rfl
          cases k <;> simp_all [Node.form, NodeKind.form, NodeKind.isLeaf]
        exact complete_of_form hClass (fun _ => hNone (Or.inl rfl)) fun _ => hNone (Or.inr rfl)

-- ---------------------------------------------------------------------------
-- Calls
-- ---------------------------------------------------------------------------

/-- How a call is spelled, and which method it denotes, if that is known. -/
abbrev Called := String × Option MethodType

/-- A call as it is spelled, with its method. -/
def called? : Node → Option Called
  | .branch (.call m) cs =>
    some ((((Node.branch (.call m) cs).tokenAt? .callee).map Token.text).getD "", m)
  | _ => none

/-- A call does not depend on what stands before it. -/
theorem called_withLeading (k : NodeKind) (cs : List (Field × Node)) (l : String) :
    called? (.branch k (Node.withLeadingIn l cs)) = called? (.branch k cs) := by
  cases k with
  | call m =>
    have hText := (Node.branch (.call m) cs).map_text_tokenAt_withLeading l .callee
    rw [Node.withLeading_branch] at hText
    rw [called?, called?, hText]
  | _ => rfl

/-- The calls in a node, in order. -/
def calls (n : Node) : List Called := n.walk.filterMap called?

mutual

/-- The calls in a node, in order, but for those in members that the table drops and in supertypes
that are exchanged. -/
def sparedCalls : Node → List Called
  | .token _ => []
  | .branch .typeDeclaration cs =>
    sparedOfClass (Supertype.denoted? (.branch .typeDeclaration cs)) cs
  | .branch k cs => (called? (.branch k cs)).toList ++ sparedIn cs

/-- The same of each child. -/
def sparedIn : List (Field × Node) → List Called
  | [] => []
  | (_, n) :: cs => sparedCalls n ++ sparedIn cs

/-- The same of the children of a class that extends a type, if it is known. -/
def sparedOfClass (extended : Option TypeName) : List (Field × Node) → List Called
  | [] => []
  | (.superclass, n) :: cs =>
    (if extended = some skeleton then [] else sparedCalls n) ++ sparedOfClass extended cs
  | (.body, .branch .classBody ms) :: cs =>
    (if extended.isSome then sparedMembers ms else sparedIn ms) ++ sparedOfClass extended cs
  | (_, n) :: cs => sparedCalls n ++ sparedOfClass extended cs

/-- The same of the members of such a class. -/
def sparedMembers : List (Field × Node) → List Called
  | [] => []
  | (_, m) :: ms =>
    (if recipe.table.decide m = .drop then [] else sparedCalls m) ++ sparedMembers ms

end

/-- A call after the migration. -/
def newCalled (c : Called) : Called :=
  (if formatCalls.selects c.2 then "doLayout" else c.1, c.2.map newMethod)

theorem sparedIn_eq (cs : List (Field × Node)) :
    sparedIn cs = cs.flatMap fun c => sparedCalls c.2 := by
  induction cs with
  | nil => rw [sparedIn, List.flatMap_nil]
  | cons c cs ih => rw [sparedIn, ih, List.flatMap_cons]

theorem sparedMembers_eq (ms : List (Field × Node)) : sparedMembers ms =
    ms.flatMap fun c => if recipe.table.decide c.2 = .drop then [] else sparedCalls c.2 := by
  induction ms with
  | nil => rw [sparedMembers, List.flatMap_nil]
  | cons c ms ih => rw [sparedMembers, ih, List.flatMap_cons]

/-- The calls that are spared in a part of a class. -/
def sparedPart (extended : Option TypeName) : Field × Node → List Called
  | (.superclass, n) => if extended = some skeleton then [] else sparedCalls n
  | (.body, .branch .classBody ms) => if extended.isSome then sparedMembers ms else sparedIn ms
  | (_, n) => sparedCalls n

theorem sparedOfClass_eq (extended : Option TypeName) (cs : List (Field × Node)) :
    sparedOfClass extended cs = cs.flatMap (sparedPart extended) := by
  induction cs with
  | nil => rw [sparedOfClass, List.flatMap_nil]
  | cons c cs ih =>
    rw [List.flatMap_cons, ← ih]
    unfold sparedPart
    split
    · rw [sparedOfClass]
    · rw [sparedOfClass]
    · rw [sparedOfClass]
      · assumption
      · assumption

theorem sparedCalls_branch {k : NodeKind} (hk : k ≠ .typeDeclaration) (cs : List (Field × Node)) :
    sparedCalls (.branch k cs) =
      (called? (.branch k cs)).toList ++ cs.flatMap fun c => sparedCalls c.2 := by
  rw [sparedCalls, sparedIn_eq]
  exact hk

theorem sparedCalls_token (t : Token) : sparedCalls (.token t) = [] := by rw [sparedCalls]

theorem sparedCalls_clauseOf (c : Token × Node) :
    sparedCalls (ClassParts.clauseOf c) = sparedCalls c.2 := by
  rw [ClassParts.clauseOf, sparedCalls_branch (k := .extendsClause) (by simp)]
  simp [called?, sparedCalls_token]

/-- The calls that are spared in a class. -/
theorem sparedCalls_toNode (p : ClassParts) : sparedCalls p.toNode =
    p.modifiers.flatMap sparedCalls ++ (p.header.flatMap sparedCalls ++
      ((p.extends?.toList.flatMap fun c =>
          if p.denoted? = some skeleton then [] else sparedCalls c.2) ++
        (p.tail.flatMap sparedCalls ++ p.members.flatMap fun m =>
          if p.denoted?.isSome ∧ recipe.table.decide m = .drop then [] else sparedCalls m))) := by
  have hDecide (t : Token) : recipe.table.decide (.token t) ≠ .drop := by
    simp [MemberTable.decide]
  have hBody : sparedPart p.denoted? (.body, p.body) = p.members.flatMap fun m =>
      if p.denoted?.isSome ∧ recipe.table.decide m = .drop then [] else sparedCalls m := by
    rw [ClassParts.body, sparedPart, sparedMembers_eq, sparedIn_eq]
    cases p.denoted? with
    | none => simp [sparedCalls_token, List.flatMap_map]
    | some t => simp [sparedCalls_token, hDecide, List.flatMap_map]
  rw [ClassParts.toNode, sparedCalls, sparedOfClass_eq]
  show (p.children.flatMap (sparedPart (Supertype.denoted? p.toNode))) = _
  rw [ClassParts.denoted_toNode]
  simp only [ClassParts.children, List.flatMap_append, List.flatMap_cons, List.flatMap_nil, hBody,
    List.flatMap_map, List.append_nil]
  simp only [sparedPart, sparedCalls_token, sparedCalls_clauseOf, List.nil_append]

/-- The calls that are spared do not depend on what stands before a node. -/
@[simp] theorem sparedCalls_withLeading {n : Node} (h : n.WellFormed) (l : String) :
    sparedCalls (n.withLeading l) = sparedCalls n := by
  induction h using Node.WellFormed.induct_parts with
  | token t => rw [sparedCalls]; exact sparedCalls.eq_1 _
  | branch k cs hk h ih =>
    rw [Node.withLeading_branch, sparedCalls_branch hk, sparedCalls_branch hk]
    cases cs with
    | nil => rfl
    | cons c cs =>
      obtain ⟨f, n⟩ := c
      rw [called_withLeading, Node.withLeadingIn_cons, List.flatMap_cons, List.flatMap_cons,
        ih (f, n) List.mem_cons_self]
  | declaration p h ih =>
    rw [ClassParts.withLeading_toNode, sparedCalls_toNode, sparedCalls_toNode,
      ClassParts.denoted_withLeading]
    unfold ClassParts.withLeading
    cases hModifiers : p.modifiers with
    | nil => rfl
    | cons m ms =>
      have hFirst := ih m (by simp [ClassParts.inner, hModifiers])
      simp only [List.flatMap_cons, hFirst]

/-- A member that is not dropped spares its calls. -/
theorem sparedCalls_outcome {m n : Node} (h : m.WellFormed)
    (hOutcome : recipe.table.outcome m = some n) : sparedCalls n = sparedCalls m := by
  cases hDecide : recipe.table.decide m with
  | keep =>
    rw [MemberTable.outcome, hDecide] at hOutcome
    rw [Option.some.inj hOutcome]
  | drop =>
    rw [MemberTable.outcome, hDecide] at hOutcome
    cases hOutcome
  | rename new =>
    obtain ⟨front, t, back, rfl, -, hRenamed⟩ := recipe.table.outcome_of_rename h hDecide
    obtain rfl := Option.some.inj (hRenamed.symm.trans hOutcome)
    rw [sparedCalls_branch (k := .method) (by simp), sparedCalls_branch (k := .method) (by simp)]
    simp [called?, sparedCalls]

/-- What is left of the members of a class spares the calls of those that are not dropped. -/
theorem sparedCalls_settled {ms : List Node}
    (h : ∀ m ∈ ms, m.form ∈ memberForms ∧ m.WellFormed) :
    (recipe.table.settled ms).flatMap sparedCalls =
      ms.flatMap fun m => if recipe.table.decide m = .drop then [] else sparedCalls m := by
  have hOutcomes : (ms.filterMap recipe.table.outcome).flatMap sparedCalls =
      ms.flatMap fun m => if recipe.table.decide m = .drop then [] else sparedCalls m := by
    induction ms with
    | nil => rfl
    | cons m ms ih =>
      have hRest := ih fun n hn => h n (List.mem_cons_of_mem _ hn)
      cases hOutcome : recipe.table.outcome m with
      | none => simp [hOutcome, hRest, recipe.table.outcome_eq_none_iff.mp hOutcome]
      | some n =>
        have hKept : recipe.table.decide m ≠ .drop := by
          intro hDrop
          rw [recipe.table.outcome_eq_none_iff.mpr hDrop] at hOutcome
          cases hOutcome
        simp [hOutcome, hRest, hKept, sparedCalls_outcome (h m List.mem_cons_self).2 hOutcome]
  have hFine : ∀ n ∈ ms.filterMap recipe.table.outcome, n.WellFormed := by
    intro n hn
    obtain ⟨m, hm, hOutcome⟩ := List.mem_filterMap.mp hn
    exact (recipe.table.outcome_member hOutcome (h m hm)).2
  rw [← hOutcomes, MemberTable.settled]
  generalize ms.filterMap recipe.table.outcome = ns at hFine
  cases ms.head?.bind recipe.table.handedOn? with
  | none => rfl
  | some blanks =>
    cases ns with
    | nil => rfl
    | cons n ns => simp [MemberTable.adopt, sparedCalls_withLeading (hFine n List.mem_cons_self)]

/-- What is left of a class after its edit spares all of its calls, which are those that the class
spares. -/
theorem sparedCalls_editParts {p : ClassParts} (h : p.WellFormed) :
    ((recipe.editParts newSupertype p).children.flatMap fun c => sparedCalls c.2) =
      sparedCalls p.toNode := by
  have hAll (q : ClassParts) : (q.children.flatMap fun c => sparedCalls c.2) =
      q.modifiers.flatMap sparedCalls ++ (q.header.flatMap sparedCalls ++
        ((q.extends?.toList.flatMap fun c => sparedCalls c.2) ++
          (q.tail.flatMap sparedCalls ++ q.members.flatMap sparedCalls))) := by
    have hBody : sparedCalls q.body = q.members.flatMap sparedCalls := by
      rw [ClassParts.body, sparedCalls_branch (k := .classBody) (by simp)]
      simp [called?, sparedCalls_token, List.flatMap_map]
    simp [ClassParts.children, List.flatMap_map, sparedCalls_token, sparedCalls_clauseOf, hBody]
  have hNew (l : String) : sparedCalls (newSupertype.withLeading l) = [] := by
    rw [sparedCalls_withLeading wellFormed_newSupertype]
    decide
  rw [hAll, sparedCalls_toNode]
  unfold Recipe.editParts
  split
  · rename_i hUnknown
    simp [Option.isNone_iff_eq_none.mp hUnknown]
  · rename_i hKnown
    have hSome : p.denoted?.isSome = true := by
      simpa [Option.isSome_iff_ne_none] using hKnown
    have hSupertype : ((p.extends?.map (recipe.movedSupertype newSupertype)).toList.flatMap
          fun c => sparedCalls c.2) =
        p.extends?.toList.flatMap fun c =>
          if p.denoted? = some skeleton then [] else sparedCalls c.2 := by
      cases hExtends : p.extends? with
      | none => rfl
      | some c =>
        have hDenoted : p.denoted? = c.2.denoted? := by simp [ClassParts.denoted?, hExtends]
        have hRecipe : recipe.legacy = skeleton := rfl
        simp only [Option.map_some, Option.toList_some, List.flatMap_cons, List.flatMap_nil,
          List.append_nil, hDenoted, Recipe.movedSupertype, hRecipe]
        by_cases hLegacy : c.2.denoted? = some skeleton
        · simp only [if_pos hLegacy, hNew]
        · simp only [if_neg hLegacy]
    simp only [hSupertype, sparedCalls_settled h.members, hSome, true_and]

theorem calls_branch (k : NodeKind) (cs : List (Field × Node)) :
    calls (.branch k cs) = (called? (.branch k cs)).toList ++ cs.flatMap fun c => calls c.2 := by
  rw [calls, Node.walk, Node.walkOf_eq, List.filterMap_cons, List.filterMap_flatMap]
  cases called? (.branch k cs) <;> rfl

theorem calls_token (t : Token) : calls (.token t) = [] := rfl

theorem calls_nameOf (t : Option TypeName) (ts : List Token) : calls (Node.nameOf t ts) = [] := by
  rw [Node.nameOf, calls_branch]
  simp [called?, calls_token, List.flatMap_map]

/-- The calls of a migrated tree are those spared, each with its new method. -/
theorem calls_migrated {n : Node} (h : n.WellFormed) :
    calls (migrated true n) = (sparedCalls n).map newCalled := by
  refine induct_migrated (P := fun n => calls (migrated true n) = (sparedCalls n).map newCalled)
    ?_ ?_ ?_ h
  · intro t
    rw [migrated_token, sparedCalls]
    rfl
  · intro k cs hk hFine ih
    by_cases hLeaf : k.isLeaf = true
    · rw [migrated_leaf true hLeaf hFine, if_pos rfl]
      rcases Pass.exists_of_leaf hLeaf hFine with ⟨t, ts, hEq⟩ | ⟨m, t, hEq⟩
      · obtain ⟨ts', hts'⟩ := exists_editLeaf_name t ts
        rw [hEq, hts', calls_nameOf, Node.nameOf, sparedCalls_branch (k := .name t) (by simp)]
        simp [called?, List.flatMap_map, sparedCalls_token]
      · rw [hEq, editLeaf_call, calls_branch, sparedCalls_branch (k := .call m) (by simp)]
        have hSpelling (u : Token) (m : Option MethodType) :
            called? (.branch (.call m) [(.callee, .token u)]) = some (u.text, m) := by
          simp [called?, Node.tokenAt?, Node.field?, filed_cons]
        simp only [hSpelling, sparedCalls_token, calls_token, List.flatMap_cons, List.flatMap_nil,
          List.append_nil, Option.toList_some, List.map_cons, List.map_nil, newCalled]
        split <;> rfl
    · rw [migrated_branch true (by simpa using hLeaf) hk, calls_branch, sparedCalls_branch hk,
        List.flatMap_map, List.map_append, List.map_flatMap]
      congr 1
      · cases k <;> first | rfl | exact absurd rfl hLeaf
      · exact List.flatMap_congr ih
  · intro p hp ih
    rw [migrated_declaration true hp, calls_branch, List.flatMap_map, ← sparedCalls_editParts hp,
      List.map_flatMap]
    exact List.flatMap_congr ih

-- ---------------------------------------------------------------------------
-- Units
-- ---------------------------------------------------------------------------

/-- A node of a unit is the unit or is below one of its parts. -/
theorem mem_walk_toUnit {p : UnitParts} {m : Node} (h : m ∈ p.toUnit.walk) :
    m = p.toUnit ∨ (∃ n, (n ∈ p.package ∨ n ∈ p.imports ∨ n ∈ p.endMarker) ∧ m ∈ n.walk) ∨
      ∃ n ∈ p.types, m ∈ n.walk := by
  unfold UnitParts.toUnit at h ⊢
  rw [Node.walk, Node.walkOf_eq] at h
  simp only [List.mem_cons, List.mem_flatMap, List.mem_append, List.mem_map,
    Option.mem_toList] at h
  rcases h with rfl | ⟨c, ((⟨n, hn, rfl⟩ | ⟨n, hn, rfl⟩) | ⟨n, hn, rfl⟩) | ⟨n, hn, rfl⟩, hm⟩
  · exact Or.inl rfl
  · exact Or.inr (Or.inl ⟨n, Or.inl hn, hm⟩)
  · exact Or.inr (Or.inl ⟨n, Or.inr (Or.inl hn), hm⟩)
  · exact Or.inr (Or.inr ⟨n, hn, hm⟩)
  · exact Or.inr (Or.inl ⟨n, Or.inr (Or.inr hn), hm⟩)

/-- The calls of a node do not depend on what stands before it. -/
@[simp] theorem calls_withLeading (n : Node) (l : String) : calls (n.withLeading l) = calls n := by
  induction n using Node.induct with
  | token t => rfl
  | branch k cs ih =>
    cases cs with
    | nil => rfl
    | cons c cs =>
      obtain ⟨f, n⟩ := c
      rw [Node.withLeading_branch, calls_branch, calls_branch, called_withLeading,
        Node.withLeadingIn_cons, List.flatMap_cons, List.flatMap_cons, ih (f, n) List.mem_cons_self]

/-- What comes of a run on a unit to which the gate applies: its types are migrated ones, but for
the trivia before the first. -/
theorem exists_refronts [TreeSitter] [ReadsTemplate] {p : UnitParts} (hp : p.Sound)
    (hUnit : p.toUnit.WellFormed)
    (hGate : Gate.applies skeleton p.toUnit = true) (j : Journal) :
    ∃ (q : UnitParts) (changed : Bool),
      (recipe.run p.toUnit j).1 = .ok ⟨q.toUnit, changed⟩ ∧ q.Sound ∧
      Refronts (p.types.map (migrated (moves p.toUnit))) q.types := by
  obtain ⟨q, changed, hRun, hSound, -, hApplies⟩ := exists_run hp hUnit j
  obtain ⟨-, hSame, hMoved⟩ := hApplies hGate
  refine ⟨q, changed, hRun, hSound, ?_⟩
  cases hMoves : moves p.toUnit with
  | true => exact (hMoved hMoves).types
  | false =>
    obtain rfl := hSame hMoves
    exact .refl _

section Types

variable {ns ms : List Node} (h : Refronts (ns.map (migrated moved)) ms)
  (hFine : ∀ n ∈ ns, n.WellFormed)

include h hFine

/-- Every node below a migrated type is complete. -/
theorem complete_of_refronts : ∀ n ∈ ms, ∀ m ∈ n.walk, Complete moved m := by
  intro type hType m hm
  obtain ⟨_, hMigrated, l, rfl⟩ := h.exists_of_mem hType
  obtain ⟨n, hn, rfl⟩ := List.mem_map.mp hMigrated
  obtain ⟨m', hm', l', rfl⟩ := Node.exists_of_mem_walk_withLeading hm
  obtain ⟨n', hn', rfl⟩ := mem_walk_migrated (hFine n hn) m' hm'
  exact complete_migrated hn' l'

omit h in
/-- The calls of migrated types are those spared, each with its new method. -/
theorem calls_of_refronts (h : Refronts (ns.map (migrated true)) ms) :
    ms.flatMap calls = (ns.flatMap sparedCalls).map newCalled := by
  have hMigrated : (ns.map (migrated true)).flatMap calls =
      (ns.flatMap sparedCalls).map newCalled := by
    rw [List.flatMap_map, List.map_flatMap]
    exact List.flatMap_congr fun n hn => calls_migrated (hFine n hn)
  rw [← hMigrated]
  obtain ⟨l, rfl⟩ := h
  cases ns.map (migrated true) with
  | nil => rfl
  | cons n ns => simp

end Types

/-- Around the types of a unit, no class extends anything known, and no call denotes a method. -/
theorem unknown_around {q : UnitParts} (hq : q.Sound) {n : Node}
    (hn : n ∈ q.package ∨ n ∈ q.imports ∨ n ∈ q.endMarker) {m : Node} (hm : m ∈ n.walk) :
    Supertype.isKnown m = false ∧ isLegacyCall m = false := by
  refine ⟨by simpa using List.any_eq_false.mp (hq.unknown hn) m hm, ?_⟩
  rcases hn with hn | hn | hn
  · cases (hq.package n hn).2.2.walk m hm with
    | token t => rfl
    | @branch k cs hKind _ =>
      by_cases hCall : k.form = .call
      · obtain ⟨method, rfl⟩ : ∃ method, k = .call method := by
          cases k <;> first | exact ⟨_, rfl⟩ | cases hCall
        cases method with
        | none => rfl
        | some method => cases hKind
      · exact isLegacyCall_of_form hCall
  · have hForm := hq.form_walk_import hn m hm
    exact isLegacyCall_of_form (by rintro hCall; simp [hCall] at hForm)
  · obtain ⟨t, rfl⟩ := Node.exists_token_of_form (hq.endMarker n hn)
    rw [Node.walk, List.mem_singleton] at hm
    rw [hm]
    rfl

/-- How a call of the resolved unit has been carried over to one of the migrated unit: a call of the
legacy layout's format is spelled anew and declared on the new layout, and any other is spelled as
before. -/
structure Recalled (c d : Called) : Prop where
  format : formatCalls.selects c.2 = true →
    d.1 = "doLayout" ∧ ∃ m, d.2 = some m ∧ m.declaring = layout
  other : formatCalls.selects c.2 = false → d.1 = c.1
  method : d.2 = c.2.map newMethod

theorem recalled_newCalled (c : Called) : Recalled c (newCalled c) where
  format hFormat := by
    obtain ⟨spelling, method⟩ := c
    cases method with
    | none => cases hFormat
    | some m =>
      have hDeclaring : m.declaring = legacyLayout := by
        simp only [MethodPattern.selects, formatCalls, Bool.and_eq_true, beq_iff_eq] at hFormat
        exact hFormat.1.1
      refine ⟨by simp [newCalled, hFormat], newMethod m, rfl, ?_⟩
      rw [newMethod, hDeclaring]
      rfl
  other hOther := by simp [newCalled, hOther]
  method := rfl

/-- **The migration leaves nothing out.** -/
theorem run_complete [TreeSitter] [LawfulTreeSitter] [ReadsTemplate] {classpath : Classpath} {text : String}
    {unit : Node} (h : resolve classpath text = .ok unit) (hGate : Gate.applies skeleton unit = true)
    (j : Journal) :
    ∃ (p q : UnitParts) (changed : Bool), unit = p.toUnit ∧
      (recipe.run unit j).1 = .ok ⟨q.toUnit, changed⟩ ∧
      (∀ n ∈ q.toUnit.walk, Supertype.isOf skeleton n = false) ∧
      (∀ n ∈ q.toUnit.walk, Supertype.isKnown n = true →
        ∀ m ∈ n.members, m.form = .method → m.declaredName ∉ ["requiresLayout", "close"]) ∧
      (moves unit = true →
        (∀ n ∈ q.types, ∀ m ∈ n.walk, isLegacyName m = false) ∧
        (∀ n ∈ q.toUnit.walk, isLegacyCall n = false) ∧
        List.Forall₂ Recalled (p.types.flatMap sparedCalls) (q.types.flatMap calls)) := by
  obtain ⟨p, rfl, hp, hUnit, -⟩ := exists_parts_of_resolve h
  obtain ⟨q, changed, hRun, hq, hFront⟩ := exists_refronts hp hUnit hGate j
  have hFine : ∀ n ∈ p.types, n.WellFormed := fun n hn => (hp.types n hn).2
  have hTypes := complete_of_refronts hFront hFine
  refine ⟨p, q, changed, rfl, hRun, ?_, ?_, fun hMoves => ⟨?_, ?_, ?_⟩⟩
  · intro n hn
    rcases mem_walk_toUnit hn with rfl | ⟨n', hn', hn⟩ | ⟨n', hn', hn⟩
    · rfl
    · exact isOf_of_isKnown (unknown_around hq hn' hn).1
    · exact (hTypes n' hn' n hn).supertype
  · intro n hn hKnown
    rcases mem_walk_toUnit hn with rfl | ⟨n', hn', hn⟩ | ⟨n', hn', hn⟩
    · cases hKnown
    · rw [(unknown_around hq hn' hn).1] at hKnown
      cases hKnown
    · exact (hTypes n' hn' n hn).members hKnown
  · exact fun n hn m hm => (hTypes n hn m hm).name hMoves
  · intro n hn
    rcases mem_walk_toUnit hn with rfl | ⟨n', hn', hn⟩ | ⟨n', hn', hn⟩
    · rfl
    · exact (unknown_around hq hn' hn).2
    · exact (hTypes n' hn' n hn).call hMoves
  · rw [hMoves] at hFront
    rw [calls_of_refronts hFine hFront, List.forall₂_map_right_iff]
    exact List.forall₂_same.mpr fun c _ => recalled_newCalled c

open Draft in
/-- A class that is moved, with a call that is spelled anew. -/
def formatting : Sample := .ofDraft (node "program" [
  importing ["AppenderSkeleton", "log4j", "apache", "org"],
  classOf "A" (typeWord "AppenderSkeleton" " ") (braced "class_body" [
    methodOf (voidType "\n  ") "append" [parameterOf (typeWord "Object") "e"] (braced "block" [
      asStatement (callOn (word "layout" " ") "format" [word "e"])])] " " "\n") "\n"]) "\n"

theorem isSound_formatting : formatting.isSound = true := by decide +kernel

open Sample in
set_option maxRecDepth 100000 in
theorem run_complete_formatting : letI := library [formatting, holder]
    ∃ (unit : Node) (p q : UnitParts) (changed : Bool),
      resolve ⟨defaultStubs⟩ formatting.text = .ok unit ∧ unit = p.toUnit ∧
      (recipe.run unit {}).1 = .ok ⟨q.toUnit, changed⟩ ∧
      (∀ n ∈ q.toUnit.walk, Supertype.isOf skeleton n = false) ∧
      (∀ n ∈ q.types, ∀ m ∈ n.walk, isLegacyName m = false) ∧
      List.Forall₂ Recalled (p.types.flatMap sparedCalls) (q.types.flatMap calls) := by
  let _ := library [formatting, holder]
  have _ := lawful_holder isSound_formatting
  have _ := readsTemplate_holder (show formatting.chars ≠ holder.chars by decide +kernel)
  have hSome : ((formatting.resolved? ⟨defaultStubs⟩).map fun unit =>
      (Gate.applies skeleton unit, moves unit)) = some (true, true) := by decide +kernel
  obtain ⟨unit, hUnit, hSome⟩ := Option.map_eq_some_iff.mp hSome
  obtain ⟨hGate, hMoves⟩ := Prod.mk.inj hSome
  have h : resolve ⟨defaultStubs⟩ formatting.text = .ok unit := (resolve_iff isSound_formatting).mpr hUnit
  obtain ⟨p, q, changed, hParts, hRun, hSupertypes, -, hMoved⟩ := run_complete h hGate {}
  obtain ⟨hNames, -, hCalls⟩ := hMoved hMoves
  exact ⟨unit, p, q, changed, h, hParts, hRun, hSupertypes, hNames, hCalls⟩

open Draft in
/-- A class that is moved, with a call that formats in its supertype. -/
def formattingAbove : Sample := .ofDraft (node "program" [
  importing ["AppenderSkeleton", "log4j", "apache", "org"],
  classOf "A" (node "generic_type" [typeWord "AppenderSkeleton" " ", node "type_arguments" [sign "<",
      node "annotated_type" [
        node "annotation" [sign "@", under "name" (word "X"),
        under "arguments" (node "annotation_argument_list" [
          sign "(",
          node "element_value_pair" [under "key" (word "y"), sign "=" " ",
          under "value" (functionOf (braced "block" [
            asStatement (callOn (word "layout" " ") "format" [word "e"])]) " ")],
          sign ")"])],
        typeWord "String" " "],
      sign ">"]]) (braced "class_body" []) "\n"]) "\n"

open Sample in
set_option maxRecDepth 100000 in
/-- A call in a supertype that is exchanged goes with it, and is not spelled anew, though there is no
method that it could have gone with. -/
theorem call_lost_in_supertype : letI := library [formattingAbove, holder]
    ∃ (unit : Node) (result : Revised),
      resolve ⟨defaultStubs⟩ formattingAbove.text = .ok unit ∧
      Gate.applies skeleton unit = true ∧ moves unit = true ∧
      (∃ n ∈ unit.walk, isFormatCall n = true) ∧ (∀ n ∈ unit.walk, n.form ≠ .method) ∧
      (recipe.run unit {}).1 = .ok result ∧ ∀ n ∈ result.node.walk, n.form ≠ .call := by
  let _ := library [formattingAbove, holder]
  have hSome : ((formattingAbove.resolved? ⟨defaultStubs⟩).map fun unit =>
      (Gate.applies skeleton unit, moves unit, unit.walk.any isFormatCall,
        unit.walk.all (·.form ≠ .method),
        (recipe.run unit {}).1.toOption.map fun result =>
          result.node.walk.all (·.form ≠ .call))) = some (true, true, true, true, some true) := by
    decide +kernel
  obtain ⟨unit, hUnit, hSome⟩ := Option.map_eq_some_iff.mp hSome
  have h : resolve ⟨defaultStubs⟩ formattingAbove.text = .ok unit :=
    (resolve_iff (by decide +kernel)).mpr hUnit
  simp only [Prod.mk.injEq, List.any_eq_true, List.all_eq_true, decide_eq_true_eq] at hSome
  obtain ⟨hGate, hMoves, hCall, hMethods, hRun⟩ := hSome
  obtain ⟨result, hResult, hNoCall⟩ := Option.map_eq_some_iff.mp hRun
  have hRun : (recipe.run unit {}).1 = .ok result := ok_of_toOption hResult
  simp only [List.all_eq_true, decide_eq_true_eq] at hNoCall
  exact ⟨unit, result, h, hGate, hMoves, hCall, hMethods, hRun, hNoCall⟩

end Appender

end SourceMigration
