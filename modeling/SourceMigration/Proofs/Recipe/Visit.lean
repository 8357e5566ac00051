import SourceMigration.Proofs.Editing.Members
import SourceMigration.Proofs.Recipe.Traversal
import SourceMigration.Recipe.Basic

/-!
# SourceMigration — the primary visit

The primary visit runs in a monad with a queue, a journal and two kinds of failure. On a
well-formed tree it never fails, provided the template can be instantiated, and what comes out is
a function of the tree: every type declaration is edited after those within it.

## Results

* `visited`            — the tree after the visit, computed without effects.
* `visited_toNode`     — the visit of a class edits what the visit made of its parts.
* `wellFormed_visited` — the visit leaves a well-formed tree.
* `gives_visitUnit`    — the visit of a unit gives that tree, and the companions are queued, each
  once, if some class extends the legacy type.
-/

namespace SourceMigration

namespace ClassParts

/-- The type that the class extends, if it is known. -/
def denoted? (p : ClassParts) : Option TypeName := p.extends?.bind (·.2.denoted?)

@[simp] theorem denoted_toNode (p : ClassParts) : Supertype.denoted? p.toNode = p.denoted? := by
  obtain ⟨modifiers, kind, name, header, extends?, tail, opening, members, closing⟩ := p
  cases extends? <;>
    simp [Supertype.denoted?, Supertype.clause?, Node.field?, toNode, denoted?, clauseOf, filed_cons]

end ClassParts

/-- An edit that schedules nothing and notes nothing but changes of methods. -/
def Workshop.Settles (w w' : Workshop) : Prop :=
  ∃ trace, w.journal.trace.NotesMethods trace ∧
    w' = { w with journal := { w.journal with trace } }

namespace Workshop.Settles

theorem refl (w : Workshop) : w.Settles w := ⟨_, .refl, rfl⟩

theorem trans {w w' w'' : Workshop} (h : w.Settles w') (h' : w'.Settles w'') : w.Settles w'' := by
  obtain ⟨u, hu, rfl⟩ := h
  obtain ⟨v, hv, rfl⟩ := h'
  exact ⟨v, hu.trans hv, rfl⟩

end Workshop.Settles

namespace Supertype

/-- Whether a node is a class whose supertype is known. -/
def isKnown : Node → Bool
  | .branch .typeDeclaration cs => (denoted? (.branch .typeDeclaration cs)).isSome
  | _ => false

/-- Whether a node is a class that directly extends a type. -/
def isOf (t : TypeName) : Node → Bool
  | .branch .typeDeclaration cs => denoted? (.branch .typeDeclaration cs) == some t
  | _ => false

end Supertype

namespace Recipe

-- ---------------------------------------------------------------------------
-- Editing one class
-- ---------------------------------------------------------------------------

section Class

-- the new supertype
variable (r : Recipe) (tree : Node)

/-- A supertype after the edit of its class. -/
def movedSupertype (c : Token × Node) : Token × Node :=
  if c.2.denoted? = some r.legacy then (c.1, tree.withLeading c.2.leading) else c

/-- The parts of a class after its edit. -/
def editParts (p : ClassParts) : ClassParts :=
  if p.denoted?.isNone then p
  else { p with
    extends? := p.extends?.map (r.movedSupertype tree), members := r.table.settled p.members }

/-- A type declaration after its edit. -/
def editedClass (decl : Node) : Node :=
  if (Supertype.denoted? decl).isNone then decl
  else
    let moved :=
      match Supertype.match? r.legacy decl with
      | some clause =>
        let old := (clause.field? .supertype).getD clause
        decl.setField .superclass (clause.setField .supertype (tree.withLeading old.leading))
      | none => decl
    match moved.field? .body with
    | none => moved
    | some body => moved.setField .body (r.table.apply body {}).1

/-- Editing a class is editing its parts. -/
theorem editedClass_toNode (p : ClassParts) :
    r.editedClass tree p.toNode = (r.editParts tree p).toNode := by
  have hBody (q : ClassParts) : q.toNode.field? .body = some q.body := by
    simp [Node.field?, ClassParts.toNode]
  unfold editedClass editParts
  rw [ClassParts.denoted_toNode]
  split
  · rfl
  · rename_i hKnown
    cases hClause : p.extends? with
    | none => simp [ClassParts.denoted?, hClause] at hKnown
    | some c =>
      have hField : p.toNode.field? .superclass = some (ClassParts.clauseOf c) := by
        simp [Node.field?, ClassParts.toNode, hClause]
      have hMatch : Supertype.match? r.legacy p.toNode =
          if c.2.denoted? = some r.legacy then some (ClassParts.clauseOf c) else none := by
        rw [Supertype.match?, ClassParts.denoted_toNode, Supertype.clause?, hField]
        simp [ClassParts.denoted?, hClause]
      rw [hMatch]
      by_cases hLegacy : c.2.denoted? = some r.legacy
      · have hNew : (ClassParts.clauseOf c).setField .supertype (tree.withLeading c.2.leading) =
            ClassParts.clauseOf (c.1, tree.withLeading c.2.leading) := rfl
        have hOld : ((ClassParts.clauseOf c).field? .supertype).getD (ClassParts.clauseOf c) = c.2 := by
          simp [ClassParts.clauseOf, Node.field?, filed_cons]
        simp only [if_pos hLegacy, hOld, hNew, p.setField_superclass hClause, hBody,
          r.table.apply_body, Option.map_some, movedSupertype]
        exact ClassParts.setField_body { p with extends? := some _ } _
      · have hSame : p.extends?.map (r.movedSupertype tree) = p.extends? := by
          rw [hClause, Option.map_some, movedSupertype, if_neg hLegacy]
        rw [← hClause, hSame]
        simp only [if_neg hLegacy, hBody, r.table.apply_body, ClassParts.setField_body]

end Class

-- ---------------------------------------------------------------------------
-- The queue
-- ---------------------------------------------------------------------------

/-- The queue of a visit under way: open, and either empty or with the companions, each once. -/
def Ready (r : Recipe) (w : Workshop) : Prop :=
  w.queue.drained = false ∧ (w.queue.passes = [] ∨ w.queue.passes = r.change.companions.eraseDups)

/-- What becomes of the queue, according to whether a class was `moved`. -/
def Queues (r : Recipe) (moved : Bool) (w w' : Workshop) : Prop :=
  w'.queue = if moved then { passes := r.change.companions.eraseDups } else w.queue

section Queue

variable {r : Recipe} {w w' w'' : Workshop} {moved moved' : Bool}

theorem Queues.ready (h : r.Queues moved w w') (hReady : r.Ready w) : r.Ready w' := by
  unfold Queues at h
  unfold Ready
  rw [h]
  cases moved
  · exact hReady
  · exact ⟨rfl, Or.inr rfl⟩

theorem Queues.refl (w : Workshop) : r.Queues false w w := rfl

theorem Queues.trans (h : r.Queues moved w w') (h' : r.Queues moved' w' w'') :
    r.Queues (moved || moved') w w'' := by
  unfold Queues at *
  cases moved' <;> simp_all

/-- An edit that schedules nothing leaves the queue. -/
theorem queues_of_settles (h : w.Settles w') : r.Queues false w w' := by
  obtain ⟨trace, -, rfl⟩ := h
  rfl

/-- The passes of a queue after some more were asked for. -/
def enqueued (waiting : List Pass) : List Pass → List Pass
  | [] => waiting
  | p :: ps => enqueued (if waiting.contains p then waiting else waiting ++ [p]) ps

/-- Passes are appended once each, in the order in which they are first asked for. -/
theorem enqueued_eq (waiting ps : List Pass) :
    enqueued waiting ps = waiting ++ (ps.filter (!waiting.contains ·)).eraseDups := by
  induction ps generalizing waiting with
  | nil => simp [enqueued]
  | cons p ps ih =>
    rw [enqueued, ih]
    by_cases hWaits : waiting.contains p = true
    · rw [if_pos hWaits, List.filter_cons_of_neg (by simpa using hWaits)]
    · rw [if_neg hWaits, List.filter_cons_of_pos (by simpa using hWaits), List.eraseDups_cons,
        List.filter_filter, List.append_assoc, List.singleton_append]
      congr 3
      refine List.filter_congr fun q _ => ?_
      by_cases hSame : q = p <;> simp [hSame]

theorem enqueued_of_subset {ps waiting : List Pass} (h : ps ⊆ waiting) :
    enqueued waiting ps = waiting := by
  induction ps with
  | nil => rfl
  | cons p ps ih =>
    rw [enqueued, if_pos (by simpa using h List.mem_cons_self)]
    exact ih fun q hq => h (List.mem_cons_of_mem _ hq)

/-- Scheduling on an open queue succeeds. -/
theorem gives_schedule (ps : List Pass) (hOpen : w.queue.drained = false) :
    ∃ w', Gives (SupertypeChange.schedule ps) w () w' ∧
      w'.queue = { passes := enqueued w.queue.passes ps } := by
  induction ps generalizing w with
  | nil =>
    obtain ⟨⟨passes, drained⟩, journal⟩ := w
    obtain rfl : drained = false := hOpen
    exact ⟨_, .pure () _, rfl⟩
  | cons p ps ih =>
    obtain ⟨⟨passes, drained⟩, journal⟩ := w
    obtain rfl : drained = false := hOpen
    by_cases hWaits : passes.contains p = true
    · obtain ⟨w', hRun, hQueue⟩ := ih (w := ⟨⟨passes, false⟩, journal⟩) rfl
      refine ⟨w', ?_, ?_⟩
      · unfold SupertypeChange.schedule
        refine .bind (.get _) ?_
        simp only [Queue.schedule, Bool.false_eq_true, if_false, if_pos hWaits]
        exact .bind (.set _ _) hRun
      · simp only [enqueued, if_pos hWaits, hQueue]
    · obtain ⟨w', hRun, hQueue⟩ :=
        ih (w := ⟨⟨passes ++ [p], false⟩, journal.log (·.scheduled p.describe)⟩) rfl
      refine ⟨w', ?_, ?_⟩
      · unfold SupertypeChange.schedule
        refine .bind (.get _) ?_
        simp only [Queue.schedule, Bool.false_eq_true, if_false, if_neg hWaits]
        exact .bind (.set _ _) hRun
      · simp only [enqueued, if_neg hWaits, hQueue]

/-- The companions are in the queue once they have been asked for. -/
theorem gives_companions (hReady : r.Ready w) :
    ∃ w', Gives (SupertypeChange.schedule r.change.companions) w () w' ∧ r.Queues true w w' := by
  obtain ⟨w', hRun, hQueue⟩ := gives_schedule r.change.companions hReady.1
  refine ⟨w', hRun, ?_⟩
  rw [Queues, hQueue, if_pos rfl]
  rcases hReady.2 with hEmpty | hFull
  · rw [hEmpty, enqueued_eq]
    simp
  · rw [hFull, enqueued_of_subset fun p hp => List.mem_eraseDups.mpr hp]

end Queue

-- ---------------------------------------------------------------------------
-- The edit of a class as an effect
-- ---------------------------------------------------------------------------

section Effects

variable {r : Recipe} {tree : Node} {w : Workshop}

theorem gives_change [TreeSitter]
    (hTemplate : Template.instantiate r.change.template r.change.types = .ok tree)
    (decl clause : Node) (hReady : r.Ready w) :
    ∃ w', Gives (r.change.apply decl clause) w
        (decl.setField .superclass (clause.setField .supertype
          (tree.withLeading ((clause.field? .supertype).getD clause).leading))) w' ∧
      r.Queues true w w' := by
  obtain ⟨w', hRun, hQueues⟩ := gives_companions hReady
  unfold SupertypeChange.apply
  rw [hTemplate]
  exact ⟨_, .bind hRun (.bind (.of_modify _ _) (.pure _ _)), hQueues⟩

/-- The second half of the edit of a class: the table applied to the body, whatever came of the
supertype. -/
def settleBody (r : Recipe) (decl : Node) : EditM Replacement :=
  match decl.field? .body with
  | none => pure (.node decl)
  | some body => do
    let w ← get
    let (body, _, trace) := r.table.apply body w.journal.trace
    set { w with journal := { w.journal with trace } }
    pure (.node (decl.setField .body body))

/-- The declaration after that. -/
def settledBody (r : Recipe) (decl : Node) : Node :=
  match decl.field? .body with
  | none => decl
  | some body => decl.setField .body (r.table.apply body {}).1

/-- Applying the table to a class schedules nothing and notes nothing but changes of methods. -/
theorem gives_settleBody (decl : Node) :
    ∃ w', Gives (r.settleBody decl) w (.node (r.settledBody decl)) w' ∧ w.Settles w' := by
  unfold settleBody settledBody
  cases decl.field? .body with
  | none => exact ⟨w, .pure _ _, .refl w⟩
  | some body =>
    have hSettled := r.table.apply_trace body w.journal.trace {}
    have hNotes := r.table.notesMethods_apply body w.journal.trace
    rcases hApply : r.table.apply body w.journal.trace with ⟨settled, changed, trace⟩
    rw [hApply] at hSettled hNotes
    refine ⟨_, .bind (.get _) ?_, trace, hNotes, rfl⟩
    simp only [hApply, ← hSettled]
    exact .bind (.set _ _) (.pure _ _)

/-- Editing a class gives the class as it is without effects. The template matters only if the class
extends the legacy type. -/
theorem gives_editClass [TreeSitter] {decl : Node}
    (hTemplate : Supertype.denoted? decl = some r.legacy →
      Template.instantiate r.change.template r.change.types = .ok tree) (hReady : r.Ready w) :
    ∃ w', Gives (r.editClass decl) w
        (if (Supertype.denoted? decl).isNone then .same else .node (r.editedClass tree decl)) w' ∧
      r.Queues (Supertype.denoted? decl == some r.legacy) w w' := by
  unfold editClass editedClass
  split
  · rename_i hNone
    rw [Option.isNone_iff_eq_none.mp hNone]
    exact ⟨w, .pure _ _, .refl w⟩
  · rename_i hKnown
    unfold Supertype.match?
    by_cases hLegacy : Supertype.denoted? decl = some r.legacy
    · obtain ⟨clause, hClause⟩ : ∃ clause, Supertype.clause? decl = some clause := by
        cases hClause : Supertype.clause? decl with
        | some clause => exact ⟨clause, rfl⟩
        | none => simp [Supertype.denoted?, hClause] at hLegacy
      obtain ⟨w₁, hChange, hQueues₁⟩ := gives_change (hTemplate hLegacy) decl clause hReady
      obtain ⟨w₂, hRun, hSettles⟩ := gives_settleBody (r := r) (w := w₁) _
      refine ⟨w₂, ?_, ?_⟩
      · rw [if_pos hLegacy, hClause]
        exact .bind hChange hRun
      · rw [hLegacy, beq_self_eq_true]
        exact hQueues₁.trans (queues_of_settles hSettles)
    · obtain ⟨w', hRun, hSettles⟩ := gives_settleBody (r := r) (w := w) decl
      refine ⟨w', ?_, ?_⟩
      · rw [if_neg hLegacy]
        exact .bind (.pure _ _) hRun
      · rw [beq_eq_false_iff_ne.mpr hLegacy]
        exact queues_of_settles hSettles

end Effects

-- ---------------------------------------------------------------------------
-- The visit of a tree
-- ---------------------------------------------------------------------------

section Visit

variable (r : Recipe) (tree : Node)

mutual

/-- A tree after the visit: every type declaration is edited after those below it. -/
def visited : Node → Node
  | .token t => .token t
  | .branch .typeDeclaration cs => r.editedClass tree (.branch .typeDeclaration (visitedIn cs))
  | .branch k cs => .branch k (visitedIn cs)

/-- The same of each child. -/
def visitedIn : List (Field × Node) → List (Field × Node)
  | [] => []
  | (f, n) :: cs => (f, visited n) :: visitedIn cs

end

theorem visitedIn_eq (cs : List (Field × Node)) :
    r.visitedIn tree cs = cs.map fun c => (c.1, r.visited tree c.2) := by
  induction cs with
  | nil => rw [visitedIn, List.map_nil]
  | cons c cs ih => rw [visitedIn, ih, List.map_cons]

theorem visited_branch {k : NodeKind} (hk : k ≠ .typeDeclaration) (cs : List (Field × Node)) :
    r.visited tree (.branch k cs) = .branch k (cs.map fun c => (c.1, r.visited tree c.2)) := by
  rw [visited, visitedIn_eq]
  exact hk

theorem form_editedClass (cs : List (Field × Node)) :
    (r.editedClass tree (.branch .typeDeclaration cs)).form = .typeDeclaration := by
  unfold editedClass
  split
  · rfl
  · simp only
    cases Supertype.match? r.legacy (.branch .typeDeclaration cs) with
    | none => cases (Node.branch .typeDeclaration cs).field? .body <;> rfl
    | some clause =>
      simp only
      split <;> rfl

/-- The visit goes on below everything but type declarations. -/
theorem descends_visited : Descends (r.visited tree) where
  token t := by rw [visited]
  form n := by
    cases n with
    | token t => rw [visited]
    | branch k cs =>
      by_cases hk : k = .typeDeclaration
      · subst hk
        rw [visited, form_editedClass]
        rfl
      · rw [visited_branch r tree hk]
        rfl
  branch k cs _ hk := r.visited_branch tree hk cs

/-- The visit of a class is the edit of what the visit made of its parts. -/
theorem visited_toNode (p : ClassParts) :
    r.visited tree p.toNode = (r.editParts tree (p.map (r.visited tree))).toNode := by
  rw [ClassParts.toNode, visited, visitedIn_eq,
    ← ClassParts.children_map (r.descends_visited tree)]
  exact r.editedClass_toNode tree _

/-- The visit does not change what a type denotes. -/
theorem denoted_visited {n : Node} (h : n.WellFormed) :
    (r.visited tree n).denoted? = n.denoted? := by
  cases n with
  | token t => rw [visited]
  | branch k cs =>
    by_cases hk : k = .typeDeclaration
    · subst hk
      obtain ⟨ds, hEq⟩ := Node.exists_children (k := .typeDeclaration) rfl
        (r.form_editedClass tree (r.visitedIn tree cs))
      rw [visited, hEq]
      rfl
    · rw [visited_branch r tree hk]
      by_cases hBase : k = .parameterized
      · subst hBase
        obtain ⟨t, ts, hBase⟩ := h.exists_base
        simp [Node.denoted?, Node.field?, filed_map_snd, hBase, Node.nameOf, visited]
      · cases k <;> first | rfl | exact absurd rfl hBase

/-- The visit does not change which type a class extends, as far as the edit is concerned. -/
theorem denoted_map_visited {p : ClassParts} (h : p.WellFormed) :
    (p.map (r.visited tree)).denoted? = p.denoted? := by
  unfold ClassParts.denoted? ClassParts.map
  cases hExtends : p.extends? with
  | none => rfl
  | some c => exact r.denoted_visited tree (h.supertype c hExtends).2

variable {tree} in
theorem wellFormed_editParts {p : ClassParts} (h : p.WellFormed)
    (hTree : tree.form ∈ [Form.name, .parameterized] ∧ tree.WellFormed) :
    (r.editParts tree p).WellFormed := by
  unfold editParts
  split
  · exact h
  · refine ⟨h.modifiers, h.header, ?_, h.tail, r.table.settled_members h.members⟩
    intro c hc
    obtain ⟨d, hd, rfl⟩ := Option.map_eq_some_iff.mp hc
    unfold movedSupertype
    split
    · exact ⟨by simpa using hTree.1, hTree.2.withLeading _⟩
    · exact h.supertype d hd

/-- What the visit makes of a well-formed tree is well-formed. -/
theorem wellFormed_visited (hTree : tree.form ∈ [Form.name, .parameterized] ∧ tree.WellFormed)
    {n : Node} (h : n.WellFormed) : (r.visited tree n).WellFormed := by
  induction h using Node.WellFormed.induct_parts with
  | token t => rw [visited]; exact .token t
  | branch k cs hk h ih =>
    rw [visited_branch r tree hk]
    refine .branch ?_ ?_
    · have hTags : (cs.map fun c => (c.1, r.visited tree c.2)).map tag = cs.map tag := by
        rw [List.map_map]
        exact List.map_congr_left fun c _ => by simp [tag, (r.descends_visited tree).form]
      rw [hTags]
      exact h.fills
    · intro c hc
      obtain ⟨d, hd, rfl⟩ := List.mem_map.mp hc
      exact ih d hd
  | declaration p h ih =>
    rw [visited_toNode]
    exact (r.wellFormed_editParts (h.map (r.descends_visited tree) ih) hTree).toNode

end Visit

-- ---------------------------------------------------------------------------
-- The visit as an effect
-- ---------------------------------------------------------------------------

section Run

variable {r : Recipe} {tree : Node} {w : Workshop}

/-- The visit of a unit is the visit of the tree. -/
theorem gives_visitUnit_of_apply [TreeSitter] {unit : Node} {result : Revised} {w' : Workshop}
    (h : Yields ((Revision.ofTypes r.editClass).apply unit) w result w') :
    Gives (r.visitUnit unit) w result w' := by
  unfold visitUnit
  exact .bind h (.pure _ _)

theorem denoted_visitedIn {cs : List (Field × Node)}
    (h : (Node.branch .typeDeclaration cs).WellFormed) :
    Supertype.denoted? (.branch .typeDeclaration (r.visitedIn tree cs)) =
      Supertype.denoted? (.branch .typeDeclaration cs) := by
  obtain ⟨p, hp, hParts⟩ := h.exists_classParts
  obtain rfl : cs = p.children := by
    rw [ClassParts.toNode] at hp
    exact (Node.branch.inj hp).2
  rw [visitedIn_eq, ← ClassParts.children_map (r.descends_visited tree)]
  show Supertype.denoted? (p.map _).toNode = Supertype.denoted? p.toNode
  rw [ClassParts.denoted_toNode, ClassParts.denoted_toNode, r.denoted_map_visited tree hParts]

/-- A node that is no class with a known supertype is made of what its children become. -/
theorem visited_of_unknown {k : NodeKind} {cs : List (Field × Node)} (h : (Node.branch k cs).WellFormed)
    (hUnknown : Supertype.isKnown (.branch k cs) = false) :
    r.visited tree (.branch k cs) = .branch k (cs.map fun c => (c.1, r.visited tree c.2)) := by
  by_cases hk : k = .typeDeclaration
  · subst hk
    rw [visited, editedClass, denoted_visitedIn h, if_pos (by simpa [Supertype.isKnown] using hUnknown),
      visitedIn_eq]
  · exact r.visited_branch tree hk cs

/-- Where no supertype is known, the visit changes nothing. -/
theorem visited_of_unreached {n : Node} (h : n.WellFormed) (hNone : n.walk.any Supertype.isKnown = false) :
    r.visited tree n = n :=
  eq_of_unedited (fun t => by rw [visited]) (fun _ _ hMem => visited_of_unknown (h.walk _ hMem)) hNone

variable (r tree) in
/-- The primary visit edits the classes whose supertype is known, and queues the companions if one of them
is moved. -/
def visitPlan [TreeSitter] : Plan where
  edit := r.editClass
  image := r.visited tree
  edits := Supertype.isKnown
  moves := Supertype.isOf r.legacy
  Ready := r.Ready
  Leads := r.Queues
  token t := by rw [visited]
  other n h := by
    cases n with
    | token t => exact ⟨rfl, rfl⟩
    | branch k cs => cases k <;> first | exact ⟨rfl, rfl⟩ | exact absurd rfl h
  refl := .refl
  trans := Queues.trans
  ready := Queues.ready

theorem below_visitPlan [TreeSitter] (cs : List (Field × Node)) :
    (r.visitPlan tree).below cs = r.visitedIn tree cs := (r.visitedIn_eq tree cs).symm

/-- The plan holds for every well-formed tree; the template matters only if a class is moved. -/
theorem fits_visitPlan [TreeSitter] {n : Node} (h : n.WellFormed)
    (hTemplate : n.walk.any (Supertype.isOf r.legacy) = true →
      Template.instantiate r.change.template r.change.types = .ok tree) : (r.visitPlan tree).Fits n where
  kept k cs hMem := visited_of_unknown (h.walk _ hMem)
  edited cs hMem w hReady := by
    have hSame : Supertype.denoted? (.branch .typeDeclaration (r.visitedIn tree cs)) = _ :=
      denoted_visitedIn (h.walk _ hMem)
    obtain ⟨w', hRun, hQueues⟩ := gives_editClass
      (fun hLegacy => hTemplate (List.any_eq_true.mpr
        ⟨_, hMem, by simpa [Supertype.isOf] using hSame ▸ hLegacy⟩)) hReady
    rw [hSame] at hRun hQueues
    have hGiven : (if Supertype.isKnown (.branch .typeDeclaration cs) then
          .node (r.visited tree (.branch .typeDeclaration cs))
        else Replacement.same) =
        if (Supertype.denoted? (.branch .typeDeclaration cs)).isNone then .same
        else .node (r.editedClass tree (.branch .typeDeclaration (r.visitedIn tree cs))) := by
      rw [visited, Supertype.isKnown]
      cases Supertype.denoted? (.branch .typeDeclaration cs) <;> rfl
    refine ⟨w', ?_, hQueues⟩
    rw [below_visitPlan]
    exact hGiven ▸ hRun

/-- The primary visit of a unit, in which no class is moved if the template has no instance. -/
theorem gives_visitUnit_of_moved [TreeSitter] {unit : Node} (h : unit.WellFormed)
    (hTemplate : unit.walk.any (Supertype.isOf r.legacy) = true →
      Template.instantiate r.change.template r.change.types = .ok tree) (hReady : r.Ready w) :
    ∃ w', Gives (r.visitUnit unit) w
        ⟨r.visited tree unit, unit.walk.any Supertype.isKnown⟩ w' ∧
      r.Queues (unit.walk.any (Supertype.isOf r.legacy)) w w' := by
  obtain ⟨w', hRun, hQueues⟩ := Plan.yields_apply (fits_visitPlan h hTemplate) hReady
  exact ⟨w', gives_visitUnit_of_apply hRun, hQueues⟩

/-- The primary visit of a unit. -/
theorem gives_visitUnit [TreeSitter]
    (hTemplate : Template.instantiate r.change.template r.change.types = .ok tree) {unit : Node}
    (h : unit.WellFormed) (hReady : r.Ready w) :
    ∃ w', Gives (r.visitUnit unit) w
        ⟨r.visited tree unit, unit.walk.any Supertype.isKnown⟩ w' ∧
      r.Queues (unit.walk.any (Supertype.isOf r.legacy)) w w' :=
  gives_visitUnit_of_moved h (fun _ => hTemplate) hReady

end Run

end Recipe

end SourceMigration
