import SourceMigration.Proofs.Recipe.Migrated

/-!
# SourceMigration — classes are edited separately

What the primary visit may do to a tree, said once and independently of how it goes about it. A class
whose supertype is not known is changed within only. One whose supertype is known has its members
settled by the table, and if the supertype is the legacy type, the new supertype stands where the old
one stood. Nothing else is touched, and nothing that is edited depends on where it stands: a class
within another one becomes what it would have become alone. The queue tells no more than whether
there was a legacy class: it holds the companions once each, however many classes asked for them.

## Results

* `edited_iff`       — the visit does this to a tree, and nothing else would be this.
* `visit_separates`  — the visit of a unit, and of each class in it by itself.
-/

namespace SourceMigration

-- ---------------------------------------------------------------------------
-- What a visit may do
-- ---------------------------------------------------------------------------

namespace Recipe

mutual

/-- What a visit with the supertype `fragment` at hand may make of a node. -/
inductive Edited (r : Recipe) (fragment : Node) : Node → Node → Prop where
  | token (t : Token) : Edited r fragment (.token t) (.token t)
  | branch {k : NodeKind} {cs ds : List (Field × Node)} (hk : k ≠ .typeDeclaration)
      (h : EditedEach r fragment cs ds) : Edited r fragment (.branch k cs) (.branch k ds)
  /-- A class without a supertype, or with one that is not known, changes within only. -/
  | unknown {p q : ClassParts} (hUnknown : p.denoted? = none)
      (h : EditedEach r fragment p.children q.children) : Edited r fragment p.toNode q.toNode
  /-- The members of a class with a known supertype follow the table. -/
  | settled {p q : ClassParts} {t : TypeName} (hKnown : p.denoted? = some t) (hOther : t ≠ r.legacy)
      (h : EditedEach r fragment p.children q.children) :
      Edited r fragment p.toNode { q with members := r.table.settled q.members }.toNode
  /-- The new supertype stands behind the word and the trivia of the old one. -/
  | moved {p q : ClassParts} {word : Token} {old : Node} (hOld : p.extends? = some (word, old))
      (hLegacy : old.denoted? = some r.legacy)
      (h : EditedEach r fragment p.children q.children) :
      Edited r fragment p.toNode
        { q with
          extends? := some (word, fragment.withLeading old.leading)
          members := r.table.settled q.members }.toNode

/-- The same of each child, in its field. -/
inductive EditedEach (r : Recipe) (fragment : Node) :
    List (Field × Node) → List (Field × Node) → Prop where
  | nil : EditedEach r fragment [] []
  | cons {f : Field} {n m : Node} {cs ds : List (Field × Node)} (h : Edited r fragment n m)
      (hs : EditedEach r fragment cs ds) : EditedEach r fragment ((f, n) :: cs) ((f, m) :: ds)

end

end Recipe

/-- A class is made of its parts in one way only. -/
theorem ClassParts.toNode_inj {p q : ClassParts} (h : p.toNode = q.toNode) : p = q := by
  have hFiled (f : Field) : filed f p.children = filed f q.children :=
    congrArg (filed f) (Node.branch.inj h).2
  have hMembers : p.members = q.members := by simpa using congrArg Node.members h
  have hModifiers := hFiled .modifiers
  have hKind := hFiled .kind
  have hName := hFiled .name
  have hHeader := hFiled .header
  have hSuperclass := hFiled .superclass
  have hTail := hFiled .tail
  have hBody := hFiled .body
  simp only [filed_superclass, filed_body, filed_name] at hSuperclass hBody hName
  obtain ⟨modifiers, kind, name, header, extends?, tail, opening, members, closing⟩ := p
  obtain ⟨modifiers', kind', name', header', extends?', tail', opening', members', closing'⟩ := q
  obtain rfl : members = members' := hMembers
  have hExtends : extends? = extends?' := by
    cases extends? <;> cases extends?' <;> simp_all [clauseOf, Prod.ext_iff]
  obtain ⟨hOpening, hClosing⟩ : opening = opening' ∧ closing = closing' := by
    simpa [body] using hBody
  simp [children, filed, List.filterMap_map] at hModifiers hKind hHeader hTail
  simp_all

namespace Recipe

variable {r : Recipe} {fragment : Node}

-- ---------------------------------------------------------------------------
-- What a visit does
-- ---------------------------------------------------------------------------

section Trees

variable {cs ds : List (Field × Node)}

theorem editedEach_visited (h : ∀ c ∈ cs, r.Edited fragment c.2 (r.visited fragment c.2)) :
    r.EditedEach fragment cs (cs.map fun c => (c.1, r.visited fragment c.2)) := by
  induction cs with
  | nil => exact .nil
  | cons c cs ih =>
    exact .cons (h c List.mem_cons_self) (ih fun d hd => h d (List.mem_cons_of_mem _ hd))

theorem eq_of_editedEach
    (hBelow : ∀ c ∈ cs, ∀ m, r.Edited fragment c.2 m → m = r.visited fragment c.2)
    (h : r.EditedEach fragment cs ds) : ds = cs.map fun c => (c.1, r.visited fragment c.2) := by
  induction cs generalizing ds with
  | nil =>
    cases h
    rfl
  | cons c cs ih =>
    cases h with
    | @cons f n m _ ds hNode hs =>
      rw [hBelow (f, n) List.mem_cons_self m hNode,
        ih (fun d hd => hBelow d (List.mem_cons_of_mem _ hd)) hs, List.map_cons]

/-- The three ways to edit a class, by what is known of its supertype. -/
theorem editParts_of_unknown {p : ClassParts} (h : p.denoted? = none) :
    r.editParts fragment p = p := by
  rw [editParts, if_pos (by simp [h])]

theorem editParts_of_other {p : ClassParts} {t : TypeName} (h : p.denoted? = some t)
    (hOther : t ≠ r.legacy) :
    r.editParts fragment p = { p with members := r.table.settled p.members } := by
  rw [editParts, h, if_neg (by simp)]
  cases hExtends : p.extends? with
  | none => rfl
  | some c =>
    have hDenoted : c.2.denoted? = some t := by
      rw [ClassParts.denoted?, hExtends] at h
      exact h
    have hNot : c.2.denoted? ≠ some r.legacy := by
      rw [hDenoted]
      simpa using hOther
    rw [Option.map_some, movedSupertype, if_neg hNot]

theorem editParts_of_legacy {p : ClassParts} {word : Token} {old : Node}
    (hOld : p.extends? = some (word, old)) (hLegacy : old.denoted? = some r.legacy) :
    r.editParts fragment p =
      { p with
        extends? := some (word, fragment.withLeading old.leading)
        members := r.table.settled p.members } := by
  have hKnown : p.denoted? = some r.legacy := by
    rw [ClassParts.denoted?, hOld]
    exact hLegacy
  rw [editParts, hKnown, if_neg (by simp), hOld, Option.map_some, movedSupertype, if_pos hLegacy]

/-- What the visit makes of the parts of a class. -/
theorem edited_toNode {p : ClassParts} (hp : p.WellFormed)
    (h : ∀ c ∈ p.children, r.Edited fragment c.2 (r.visited fragment c.2)) :
    r.Edited fragment p.toNode (r.visited fragment p.toNode) := by
  have hEach := editedEach_visited h
  rw [← ClassParts.children_map (r.descends_visited fragment)] at hEach
  have hDenoted := r.denoted_map_visited fragment hp
  rw [visited_toNode]
  cases hSupertype : p.denoted? with
  | none =>
    rw [editParts_of_unknown (hDenoted.trans hSupertype)]
    exact .unknown hSupertype hEach
  | some t =>
    by_cases hLegacy : t = r.legacy
    · subst hLegacy
      obtain ⟨⟨word, old⟩, hOld, hOldType⟩ := Option.bind_eq_some_iff.mp hSupertype
      have hFine : old.WellFormed := (hp.supertype _ hOld).2
      have hMap : (p.map (r.visited fragment)).extends? = some (word, r.visited fragment old) := by
        rw [ClassParts.map, hOld]
        rfl
      rw [editParts_of_legacy hMap ((r.denoted_visited fragment hFine).trans hOldType),
        r.leading_visited hFine]
      exact .moved hOld hOldType hEach
    · rw [editParts_of_other (hDenoted.trans hSupertype) hLegacy]
      exact .settled hSupertype hLegacy hEach

/-- What a visit may make of the parts of a class is what it makes of them. -/
theorem eq_of_edited_toNode {p : ClassParts} (hp : p.WellFormed)
    (hBelow : ∀ c ∈ p.children, ∀ m, r.Edited fragment c.2 m → m = r.visited fragment c.2)
    {m : Node} (h : r.Edited fragment p.toNode m) : m = r.visited fragment p.toNode := by
  have hParts {q : ClassParts} (hEach : r.EditedEach fragment p.children q.children) :
      q = p.map (r.visited fragment) := by
    refine ClassParts.toNode_inj ?_
    rw [ClassParts.toNode, ClassParts.toNode, ClassParts.children_map (r.descends_visited fragment),
      eq_of_editedEach hBelow hEach]
  have hDenoted := r.denoted_map_visited fragment hp
  rw [visited_toNode]
  generalize hNode : p.toNode = n at h
  cases h with
  | token t => cases hNode
  | branch hk _ => exact absurd (Node.branch.inj hNode).1.symm hk
  | unknown hUnknown hEach =>
    obtain rfl := ClassParts.toNode_inj hNode
    rw [editParts_of_unknown (hDenoted.trans hUnknown), hParts hEach]
  | settled hKnown hOther hEach =>
    obtain rfl := ClassParts.toNode_inj hNode
    rw [editParts_of_other (hDenoted.trans hKnown) hOther, hParts hEach]
  | @moved _ _ word old hOld hLegacy hEach =>
    obtain rfl := ClassParts.toNode_inj hNode
    have hFine : old.WellFormed := (hp.supertype _ hOld).2
    have hMap : (p.map (r.visited fragment)).extends? = some (word, r.visited fragment old) := by
      rw [ClassParts.map, hOld]
      rfl
    rw [editParts_of_legacy hMap ((r.denoted_visited fragment hFine).trans hLegacy),
      r.leading_visited hFine, hParts hEach]

end Trees

/-- The visit does this to a tree, and nothing else would be this. -/
theorem edited_iff {n : Node} (h : n.WellFormed) {m : Node} :
    r.Edited fragment n m ↔ m = r.visited fragment n := by
  induction h generalizing m with
  | token t =>
    rw [visited]
    refine ⟨fun h => ?_, ?_⟩
    · generalize hNode : Node.token t = n at h
      cases h <;> cases hNode
      rfl
    · rintro rfl
      exact .token t
  | @branch k cs hFills hChildren ih =>
    by_cases hk : k = .typeDeclaration
    · subst hk
      obtain ⟨p, hp, hParts⟩ := (Node.WellFormed.branch hFills hChildren).exists_classParts
      rw [hp]
      obtain rfl : cs = p.children := (Node.branch.inj hp).2
      refine ⟨eq_of_edited_toNode hParts fun c hc m => (ih c hc).mp, ?_⟩
      rintro rfl
      exact edited_toNode hParts fun c hc => (ih c hc).mpr rfl
    · rw [visited_branch r fragment hk]
      refine ⟨fun h => ?_, ?_⟩
      · generalize hNode : Node.branch k cs = n at h
        cases h with
        | token t => cases hNode
        | branch _ hEach =>
          obtain ⟨rfl, rfl⟩ := Node.branch.inj hNode
          rw [eq_of_editedEach (fun c hc m => (ih c hc).mp) hEach]
        | unknown | settled | moved => exact absurd (Node.branch.inj hNode).1 hk
      · rintro rfl
        exact .branch hk (editedEach_visited fun c hc => (ih c hc).mpr rfl)

-- ---------------------------------------------------------------------------
-- Units and classes by themselves
-- ---------------------------------------------------------------------------

/-- The visit of a tree, from an empty queue. -/
theorem exists_visit [TreeSitter]
    (hTemplate : Template.instantiate r.change.template r.change.types = .ok fragment)
    {n : Node} (h : n.WellFormed) (j : Journal) :
    ∃ n' w, Gives (r.visitUnit n) { journal := j } ⟨n', n.walk.any Supertype.isKnown⟩ w ∧
      r.Edited fragment n n' ∧
      w.queue = { passes :=
        if n.walk.any (Supertype.isOf r.legacy) then r.change.companions.eraseDups else [] } := by
  obtain ⟨w, hVisit, hQueues⟩ :=
    gives_visitUnit (w := { journal := j }) hTemplate h ⟨rfl, Or.inl rfl⟩
  refine ⟨_, w, hVisit, (edited_iff h).mpr rfl, ?_⟩
  rw [Queues] at hQueues
  rw [hQueues]
  split <;> rfl

/-- The primary visit of a unit, resolved or edited, edits each class in it, at any depth, as a visit of that
class alone does; then the companions wait, each once and in their order, if a class had the legacy type, and
nothing waits otherwise. -/
theorem visit_separates [TreeSitter] {unit : Node} (hFine : unit.WellFormed) (r : Recipe) {fragment : Node}
    (hTemplate : Template.instantiate r.change.template r.change.types = .ok fragment) (j : Journal) :
    (∃ unit' w, Gives (r.visitUnit unit) { journal := j } ⟨unit', unit.walk.any Supertype.isKnown⟩ w ∧
        r.Edited fragment unit unit' ∧
        w.queue = { passes :=
          if unit.walk.any (Supertype.isOf r.legacy) then r.change.companions.eraseDups else [] }) ∧
      ∀ decl ∈ unit.walk, decl.form = .typeDeclaration → ∀ decl',
        r.Edited fragment decl decl' ↔
          ∃ changed w, Gives (r.visitUnit decl) { journal := j } ⟨decl', changed⟩ w := by
  refine ⟨exists_visit hTemplate hFine j, fun decl hDecl _ decl' => ?_⟩
  have hAlone := hFine.walk decl hDecl
  obtain ⟨n', w, hVisit, hEdited, -⟩ := exists_visit hTemplate hAlone j
  obtain rfl := (edited_iff hAlone).mp hEdited
  rw [edited_iff hAlone]
  refine ⟨?_, ?_⟩
  · rintro rfl
    exact ⟨_, w, hVisit⟩
  · rintro ⟨changed, w', hOther⟩
    have hSame := Prod.mk.inj (hOther.symm.trans hVisit)
    exact congrArg Revised.node (Except.ok.inj hSame.1)

open Draft in
/-- A class with a class in one of its methods, which is renamed, and another in one that is dropped. -/
def nesting : Sample := .ofDraft (node "program" [
  importing ["AppenderSkeleton", "log4j", "apache", "org"],
  classOf "A" (typeWord "AppenderSkeleton" " ") (braced "class_body" [
    methodOf (voidType "\n  ") "close" [] (braced "block" [
      classOf "B" (typeWord "AppenderSkeleton" " ") (braced "class_body" []) " "]),
    methodOf (voidType "\n  ") "requiresLayout" [] (braced "block" [
      classOf "C" (typeWord "A" " ") (braced "class_body" [
        methodOf voidType "close" [] (braced "block" [])]) " "])] " " "\n") "\n"]) "\n"

/-- The appender recipe, asking for each of its companions twice. -/
def twice : Recipe :=
  { Appender.recipe with
    change := { Appender.recipe.change with companions := Appender.companions ++ Appender.companions } }

open Sample in
set_option maxRecDepth 100000 in
theorem visit_separates_nesting : letI := library [nesting, holder]
    ∃ unit, nesting.resolved? ⟨defaultStubs⟩ = some unit ∧ unit.WellFormed ∧
      Template.instantiate twice.change.template twice.change.types = .ok Appender.newSupertype ∧
      twice.change.companions.eraseDups = Appender.companions ∧
      (unit.walk.filter (Supertype.isOf twice.legacy)).map Node.declaredName = ["A", "B"] ∧
      (∃ unit' w, Gives (twice.visitUnit unit) {} ⟨unit', unit.walk.any Supertype.isKnown⟩ w ∧
        twice.Edited Appender.newSupertype unit unit' ∧
        w.queue = { passes := if unit.walk.any (Supertype.isOf twice.legacy) then
          twice.change.companions.eraseDups else [] }) ∧
      ∀ decl ∈ unit.walk, decl.form = .typeDeclaration → ∀ decl',
        twice.Edited Appender.newSupertype decl decl' ↔
          ∃ changed w, Gives (twice.visitUnit decl) {} ⟨decl', changed⟩ w := by
  let _ := library [nesting, holder]
  have _ := readsTemplate_holder (show nesting.chars ≠ holder.chars by decide +kernel)
  have hSome : ((nesting.resolved? ⟨defaultStubs⟩).map fun unit =>
      (unit.walk.filter (Supertype.isOf twice.legacy)).map Node.declaredName) = some ["A", "B"] := by
    decide +kernel
  obtain ⟨unit, hUnit, hNames⟩ := Option.map_eq_some_iff.mp hSome
  have hFine := (wellFormed_of_resolved (by decide +kernel) hUnit).1
  exact ⟨_, hUnit, hFine, Appender.instantiate_template, by decide +kernel, hNames,
    visit_separates hFine twice Appender.instantiate_template {}⟩

end Recipe

end SourceMigration
