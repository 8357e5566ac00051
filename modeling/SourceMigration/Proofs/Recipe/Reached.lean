import Mathlib.Logic.Relation
import SourceMigration.Proofs.Editing.Lasting
import SourceMigration.Proofs.Recipe.Migrated
import SourceMigration.Proofs.Tree.Serviceable
import SourceMigration.Proofs.Typing.Spelled
import SourceMigration.Recipe.Appender

/-!
# SourceMigration — the units that are reached

From the unit that is read from a text, attribution, primary visits and passes lead to others, in
any order and with any arguments. Each of them makes a sturdy unit of a sturdy one. So on every unit
that is reached all operations on nodes go through, and names spell what they denote.

A visit is judged by what it can give, from any workshop: what it has queued does not matter here.

## Results

* `sure_run`         — the visit of a sturdy node leaves one sturdy node in its place.
* `reached_run`      — a recipe is run by operations of this kind.
* `sturdy_worked`    — one operation makes a sturdy unit of a sturdy unit.
* `spelled_reached`  — names spell what they denote.
* `operable_reached` — all operations go through.
-/

namespace SourceMigration

-- ---------------------------------------------------------------------------
-- What edits can give
-- ---------------------------------------------------------------------------

/-- Whatever an edit gives, from any workshop, is as `P` says. -/
def Ensures {α : Type} (x : EditM α) (P : α → Prop) : Prop := ∀ w a w', Gives x w a w' → P a

namespace Ensures

variable {α β : Type} {x : EditM α} {f : α → EditM β} {P Q : α → Prop} {R : β → Prop}

theorem any (x : EditM α) : Ensures x fun _ => True := fun _ _ _ _ => trivial

theorem pure {a : α} (h : P a) : Ensures (Pure.pure a) P := by
  rintro w b w' ⟨⟩
  exact h

theorem throw (why : EditFault) : Ensures (MonadExcept.throw why : EditM α) P := by
  rintro w a w' ⟨⟩

theorem bind (hx : Ensures x P) (hf : ∀ a, P a → Ensures (f a) R) : Ensures (x >>= f) R := by
  intro w b w'' h
  unfold Gives at h
  rw [ExceptT.run_bind, StateT.run_bind] at h
  rcases hRun : x.run.run w with ⟨why | a, w'⟩
  · rw [hRun] at h
    cases h
  · rw [hRun] at h
    exact hf a (hx w a w' hRun) w' b w'' h

theorem imp (hx : Ensures x P) (h : ∀ a, P a → Q a) : Ensures x Q :=
  fun w a w' hGives => h a (hx w a w' hGives)

end Ensures

/-- A part of a visit that is no fault of the revision, and as `P` says. -/
def Sure {α : Type} (x : ExceptT RevisionFault EditM α) (P : α → Prop) : Prop :=
  Ensures x.run fun o => ∃ a, o = .ok a ∧ P a

namespace Sure

variable {α β : Type} {x : ExceptT RevisionFault EditM α} {f : α → ExceptT RevisionFault EditM β}
  {P : α → Prop} {R : β → Prop}

theorem pure {a : α} (h : P a) : Sure (Pure.pure a) P := Ensures.pure ⟨a, rfl, h⟩

theorem lift {x : EditM α} (h : Ensures x P) : Sure (liftM x) P :=
  Ensures.bind (x := x) h fun a ha => Ensures.pure ⟨a, rfl, ha⟩

theorem bind (hx : Sure x P) (hf : ∀ a, P a → Sure (f a) R) : Sure (x >>= f) R := by
  unfold Sure at *
  rw [ExceptT.run_bind]
  refine Ensures.bind hx fun o ho => ?_
  obtain ⟨a, rfl, ha⟩ := ho
  exact hf a ha

end Sure

namespace Recipe

variable (r : Recipe)

-- ---------------------------------------------------------------------------
-- Editing one class
-- ---------------------------------------------------------------------------

/-- First the supertype of a class, then its members. -/
theorem editClass_eq [TreeSitter] (decl : Node) : r.editClass decl =
    if (Supertype.denoted? decl).isNone then pure .same
    else
      (match Supertype.match? r.legacy decl with
        | some clause => r.change.apply decl clause
        | none => pure decl) >>= r.settleBody := by
  unfold editClass
  split
  · rfl
  · cases Supertype.match? r.legacy decl <;> rfl

theorem ensures_change [TreeSitter] [LawfulTreeSitter] (c : SupertypeChange) (decl clause : Node) :
    Ensures (c.apply decl clause) fun n => ∃ tree : Node,
      (tree.form ∈ [Form.name, .parameterized] ∧ tree.Sturdy) ∧
        n = decl.setField .superclass (clause.setField .supertype tree) := by
  unfold SupertypeChange.apply
  simp only
  split
  · exact .throw _
  · rename_i tree hTree
    obtain ⟨hForm, hSturdy⟩ := Template.sturdy_instantiate hTree
    exact .bind (.any _) fun _ _ => .bind (.any _) fun _ _ =>
      .pure ⟨_, ⟨by simpa using hForm, hSturdy.withLeading _⟩, rfl⟩

theorem ensures_settleBody {decl : Node} (h : decl.form = .typeDeclaration ∧ decl.Sturdy) :
    Ensures (r.settleBody decl) fun o =>
      ∃ n, o = .node n ∧ n.form = .typeDeclaration ∧ n.Sturdy := by
  obtain ⟨p, rfl, hp⟩ := ClassParts.exists_sturdy h.2 h.1
  have hBody : p.toNode.field? .body = some p.body := by
    simp [Node.field?, ClassParts.toNode]
  unfold settleBody
  simp only [hBody]
  refine .bind (.any _) fun w _ => ?_
  rcases hApply : r.table.apply p.body w.journal.trace with ⟨body, changed, trace⟩
  obtain rfl : body = _ := by simpa [hApply] using r.table.apply_body p w.journal.trace
  refine .bind (.any _) fun _ _ => .pure ⟨_, rfl, ?_⟩
  rw [ClassParts.setField_body]
  exact ⟨rfl, ClassParts.Sturdy.toNode { hp with members := r.table.sturdy_settled hp.members }⟩

/-- A sturdy class is left as it is or exchanged for a sturdy class. -/
theorem ensures_editClass [TreeSitter] [LawfulTreeSitter] {decl : Node}
    (hForm : decl.form = .typeDeclaration) (h : decl.Sturdy) :
    Ensures (r.editClass decl) fun o =>
      o = .same ∨ ∃ n, o = .node n ∧ n.form = .typeDeclaration ∧ n.Sturdy := by
  rw [editClass_eq]
  split
  · exact .pure (Or.inl rfl)
  · refine .bind (P := fun n => n.form = .typeDeclaration ∧ n.Sturdy) ?_
      fun n hn => (r.ensures_settleBody hn).imp fun _ => Or.inr
    cases hMatch : Supertype.match? r.legacy decl with
    | none => exact .pure ⟨hForm, h⟩
    | some clause =>
      obtain ⟨p, rfl, hp⟩ := ClassParts.exists_sturdy h hForm
      have hClauses : Supertype.clause? p.toNode = p.extends?.map ClassParts.clauseOf := by
        cases hExtends : p.extends? <;>
          simp [Supertype.clause?, Node.field?, ClassParts.toNode, hExtends]
      rw [Supertype.match?, Option.ite_none_right_eq_some, hClauses] at hMatch
      obtain ⟨c, hc, rfl⟩ := Option.map_eq_some_iff.mp hMatch.2
      refine (ensures_change r.change _ _).imp ?_
      rintro _ ⟨tree, hTree, rfl⟩
      have hNew : (ClassParts.clauseOf c).setField .supertype tree =
          ClassParts.clauseOf (c.1, tree) := rfl
      rw [hNew, p.setField_superclass hc]
      refine ⟨rfl, ClassParts.Sturdy.toNode { hp with supertype := ?_ }⟩
      rintro _ ⟨⟩
      exact hTree

-- ---------------------------------------------------------------------------
-- The visit
-- ---------------------------------------------------------------------------

/-- What may come of a node: it is kept, or a sturdy node of its form takes its place. Tokens are
kept. -/
def Stays (n : Node) (o : Revision.Outcome) : Prop :=
  o = .kept ∨ ∃ m, o = .replaced m ∧ n.form ≠ .token ∧ m.form = n.form ∧ m.Sturdy

theorem stays_ofReplacement {n m : Node} {o : Replacement} (hn : n.form ≠ .token)
    (hForm : m.form = n.form) (h : m.Sturdy) (changed : Bool)
    (ho : o = .same ∨ ∃ l, o = .node l ∧ l.form = m.form ∧ l.Sturdy) :
    Stays n (.ofReplacement m changed o) := by
  obtain rfl | ⟨l, rfl, hSame, hl⟩ := ho
  · cases changed with
    | false => exact Or.inl rfl
    | true => exact Or.inr ⟨m, rfl, hn, hForm, h⟩
  · exact Or.inr ⟨l, rfl, hn, hSame.trans hForm, hl⟩

/-- In the place of each child comes one child, or the child stays. -/
theorem sure_runChildren [TreeSitter] (k : NodeKind) (parent : Node) {cs : List (Field × Node)}
    (hcs : ∀ c ∈ cs, c.2.Sturdy)
    (h : ∀ c ∈ cs, Sure ((Revision.ofTypes r.editClass).run (some parent) c.2) (Stays c.2)) :
    Sure ((Revision.ofTypes r.editClass).runChildren k parent cs) fun out =>
      List.Forall₂ Node.Follows cs out.1 := by
  induction cs with
  | nil =>
    unfold Revision.runChildren
    exact .pure .nil
  | cons c cs ih =>
    obtain ⟨f, n⟩ := c
    obtain ⟨hFirst, hRest⟩ := List.forall_mem_cons.mp h
    obtain ⟨hSturdy, hcs⟩ := List.forall_mem_cons.mp hcs
    -- with one child in front, the others come behind it
    have hBehind (m : Node) (b : Bool) (hm : Node.Follows (f, n) (f, m)) :
        Sure (do
          let out ← (Revision.ofTypes r.editClass).runChildren k parent cs
          pure ([(f, m)] ++ out.1, b || out.2)) fun out =>
            List.Forall₂ Node.Follows ((f, n) :: cs) out.1 :=
      .bind (ih hcs hRest) fun out hOut => .pure (.cons hm hOut)
    unfold Revision.runChildren
    refine .bind hFirst fun o ho => ?_
    obtain rfl | ⟨m, rfl, hn, hForm, hm⟩ := ho
    · refine .bind (.pure (P := (· = ([(f, n)], false))) rfl) ?_
      rintro _ rfl
      exact hBehind n false ⟨rfl, rfl, fun _ ht => ht, hSturdy⟩
    · refine .bind (.pure (P := (· = ([(f, m)], true))) rfl) ?_
      rintro _ rfl
      refine hBehind m true ⟨rfl, hForm, ?_, hm⟩
      rintro t rfl
      exact absurd rfl hn

/-- The visit of a sturdy node leaves one sturdy node in its place. -/
theorem sure_run [TreeSitter] [LawfulTreeSitter] {n : Node} (h : n.Sturdy) (parent : Option Node) :
    Sure ((Revision.ofTypes r.editClass).run parent n) (Stays n) := by
  induction h generalizing parent with
  | token t =>
    unfold Revision.run
    refine .bind (.lift (.any _)) fun _ _ => .bind (.lift (.pure (P := (· = .same)) rfl)) ?_
    rintro _ rfl
    exact .pure (Or.inl rfl)
  | @branch k cs hFills hIntact hSpelled hChildren ih =>
    unfold Revision.run
    refine .bind (.lift (.pure (P := (· = true)) rfl)) ?_
    rintro _ rfl
    refine .bind (r.sure_runChildren k (.branch k cs) hChildren fun c hc => ih c hc _) ?_
    rintro ⟨ds, changed⟩ hAll
    have hNew : (Node.branch k ds).Sturdy :=
      (Node.Sturdy.branch hFills hIntact hSpelled hChildren).follow hAll
    refine .bind (P := fun o => o = .same ∨ ∃ m, o = .node m ∧ m.form = k.form ∧ m.Sturdy)
      (.lift ?_) fun o ho => .pure (stays_ofReplacement ?_ rfl hNew changed ho)
    · by_cases hk : k = .typeDeclaration
      · subst hk
        exact r.ensures_editClass rfl hNew
      · have hSame : (Revision.ofTypes r.editClass).leave parent (.branch k cs) (.branch k ds)
            changed = pure .same := by
          cases k <;> first | rfl | exact absurd rfl hk
        rw [hSame]
        exact .pure (Or.inl rfl)
    · cases k <;> simp [Node.form, NodeKind.form]

/-- The visit of a sturdy tree is no fault of the revision, and gives a sturdy tree. -/
theorem sure_apply [TreeSitter] [LawfulTreeSitter] {root : Node} (h : root.Sturdy) :
    Sure ((Revision.ofTypes r.editClass).apply root) fun result =>
      result.node.form = root.form ∧ result.node.Sturdy := by
  unfold Revision.apply
  refine .bind (r.sure_run h none) ?_
  rintro _ (rfl | ⟨m, rfl, -, hForm, hm⟩)
  · exact .pure ⟨rfl, h⟩
  · exact .pure ⟨hForm, hm⟩

/-- The primary visit gives a sturdy unit. -/
theorem ensures_visitUnit [TreeSitter] [LawfulTreeSitter] {unit : Node} (h : unit.Sturdy) :
    Ensures (r.visitUnit unit) fun result =>
      result.node.form = unit.form ∧ result.node.Sturdy := by
  unfold visitUnit
  refine .bind (r.sure_apply h) ?_
  rintro _ ⟨result, rfl, hResult⟩
  exact .pure hResult

/-- A class is sturdy when the edit comes upon it, after the classes below it. -/
theorem sturdy_visitedIn [TreeSitter] [LawfulTreeSitter] {tree : Node} {cs : List (Field × Node)}
    (hTemplate : Template.instantiate r.change.template r.change.types = .ok tree)
    (h : (Node.branch .typeDeclaration cs).Sturdy) :
    (Node.branch .typeDeclaration (r.visitedIn tree cs)).Sturdy := by
  rw [visitedIn_eq]
  refine h.map (fun t => by rw [visited]) (fun c _ => (r.descends_visited tree).form c.2)
    fun c hc => ?_
  obtain ⟨w, hVisit, -⟩ :=
    gives_visitUnit (w := {}) hTemplate (h.child hc).wellFormed ⟨rfl, Or.inl rfl⟩
  exact (r.ensures_visitUnit (h.child hc) _ _ _ hVisit).2

end Recipe

-- ---------------------------------------------------------------------------
-- Units that are reached
-- ---------------------------------------------------------------------------

/-- What one operation makes of a unit: attribution, the primary visit of a recipe, or a pass, or as
much of a pass as puts one type in the place of another. -/
inductive Worked [TreeSitter] : Node → Node → Prop
  | attributed (classpath : Classpath) (unit : Node) :
    Worked unit (Attribution.ofUnit classpath unit).value
  | visited {r : Recipe} {unit : Node} {w w' : Workshop} {result : Revised}
    (h : Gives (r.visitUnit unit) w result w') : Worked unit result.node
  | passed (pass : Pass) (unit : Node) (j : Journal) : Worked unit (pass.run unit j).1.node
  | retyped (old new : TypeName) (unit : Node) : Worked unit (Pass.changeTypes old new unit).1

/-- What any number of operations make of a unit, one after another. -/
def Reached [TreeSitter] : Node → Node → Prop := Relation.ReflTransGen Worked

/-- Passes that are run one after another. -/
theorem reached_runAll [TreeSitter] (ps : List Pass) (unit : Revised) (j : Journal) :
    Reached unit.node (Queue.runAll ps unit j).1.node := by
  induction ps generalizing unit j with
  | nil => exact .refl
  | cons p ps ih =>
    have hFirst := Worked.passed p unit.node (j.remark ["Running deferred pass: " ++ p.describe])
    rw [Queue.runAll]
    generalize p.run unit.node (j.remark ["Running deferred pass: " ++ p.describe]) = out
      at hFirst ⊢
    exact .head hFirst (ih ⟨out.1.node, unit.changed || out.1.changed⟩ _)

/-- A recipe is run by such operations. -/
theorem reached_run [TreeSitter] {r : Recipe} {unit : Node} {j : Journal} {result : Revised}
    (h : (r.run unit j).1 = .ok result) : Reached unit result.node := by
  unfold Recipe.run at h
  split at h
  · obtain rfl := Except.ok.inj h
    exact .refl
  · rcases hVisit : (r.visitUnit unit).run { journal := j.log (·.start "Primary Visit" r.name) }
      with ⟨why | visited, w⟩
    · simp only [hVisit] at h
      cases h
    · simp only [hVisit, Queue.drain] at h
      cases hDrained : w.queue.drained with
      | true =>
        simp only [hDrained] at h
        cases h
      | false =>
        simp only [hDrained] at h
        obtain rfl := Except.ok.inj h
        exact .head (.visited hVisit) (reached_runAll w.queue.passes ⟨visited.node, false⟩ _)

/-- An operation makes a sturdy unit of a sturdy unit. -/
theorem sturdy_worked [TreeSitter] [LawfulTreeSitter] {unit unit' : Node} (hWorked : Worked unit unit')
    (h : unit.form = .unit ∧ unit.Sturdy) : unit'.form = .unit ∧ unit'.Sturdy := by
  obtain ⟨hForm, hSturdy⟩ := h
  cases hWorked with
  | attributed classpath => exact Attribution.sturdy_ofUnit classpath hSturdy hForm
  | visited hVisit =>
    obtain ⟨hSame, hNew⟩ := Recipe.ensures_visitUnit _ hSturdy _ _ _ hVisit
    exact ⟨hSame.trans hForm, hNew⟩
  | passed pass _ j => exact pass.sturdy_run hSturdy hForm j
  | retyped old new =>
    obtain ⟨hSame, hNew⟩ := Pass.sturdy_changeTypes old new hSturdy
    exact ⟨hSame.trans hForm, hNew⟩

theorem sturdy_reached [TreeSitter] [LawfulTreeSitter] {unit unit' : Node} (hReached : Reached unit unit')
    (h : unit.form = .unit ∧ unit.Sturdy) : unit'.form = .unit ∧ unit'.Sturdy := by
  induction hReached with
  | refl => exact h
  | tail _ hWorked ih => exact sturdy_worked hWorked ih

-- ---------------------------------------------------------------------------
-- Spelling
-- ---------------------------------------------------------------------------

/-- **In every unit that is reached from the resolution of a fresh one**, a name that denotes a type is
spelled by it, in full or from some point on. -/
theorem spelled_reached [TreeSitter] [LawfulTreeSitter] {tree unit : Node} (h : tree.Fresh)
    (classpath : Classpath) (hReached : Reached (Attribution.ofUnit classpath tree).value unit) :
    ∀ t cs, .branch (.name (some t)) cs ∈ unit.walk →
      t.SpelledBy (Node.branch (.name (some t)) cs).dottedName := by
  intro t cs hName
  obtain ⟨-, hSturdy⟩ :=
    sturdy_reached (.head (.attributed classpath tree) hReached) ⟨h.isUnit, h.sturdy⟩
  exact (hSturdy.walk _ hName).wellSpelled t cs rfl

open Sample in
theorem spelled_reached_remarked : letI := library [remarked, holder]
    ∃ tree unit, remarked.unit? = some tree ∧ tree.Fresh ∧
      Reached (Attribution.ofUnit ⟨defaultStubs⟩ tree).value unit ∧
      unit.walk.any (·.denoted? == some Appender.base) = true ∧
      ∀ t cs, .branch (.name (some t)) cs ∈ unit.walk →
        t.SpelledBy (Node.branch (.name (some t)) cs).dottedName := by
  let _ := library [remarked, holder]
  have _ := lawful_holder isSound_remarked
  obtain ⟨unit, result, hUnit, hRun, -, -, hBase⟩ := run_remarked
  obtain ⟨tree, hTree, rfl⟩ := Option.map_eq_some_iff.mp hUnit
  have hFresh := Parsing.fresh_of_sample isSound_remarked hTree
  have hReached := reached_run hRun
  exact ⟨tree, result.node, hTree, hFresh, hReached, hBase, spelled_reached hFresh ⟨defaultStubs⟩ hReached⟩

-- ---------------------------------------------------------------------------
-- Operations that cannot fail
-- ---------------------------------------------------------------------------

/-- A unit on which all operations go through. -/
structure Operable [TreeSitter] (unit : Node) : Prop where
  /-- Children stand in the fields of their kind, as many in each as it takes. -/
  wellFormed : unit.WellFormed
  /-- Names are identifiers with points between them, statements are not empty, methods have a body
  or end without one, and blocks and classes have their braces. -/
  intact : ∀ k cs, .branch k cs ∈ unit.walk → k.Intact cs
  serviceable : ∀ n ∈ unit.walk, n.Serviceable
  /-- A visit comes upon no class that cannot be edited. -/
  editable : ∀ (r : Recipe) (tree : Node),
    Template.instantiate r.change.template r.change.types = .ok tree →
      ∀ cs, .branch .typeDeclaration cs ∈ unit.walk →
        ∀ n ∈ (Node.branch .typeDeclaration (r.visitedIn tree cs)).walk, n.Serviceable
  /-- A visit is no fault of the revision, whatever is waiting and whatever its template. -/
  faultless : ∀ (r : Recipe) (w w' : Workshop) (why : RevisionFault),
    ¬ Gives ((Revision.ofTypes r.editClass).apply unit).run w (.error why) w'

/-- **On every unit that is reached from the unit of a text**, all operations go through. -/
theorem operable_reached [TreeSitter] [LawfulTreeSitter] {text : String} {tree unit : Node}
    (h : Parsing.parse text = .ok tree) (hReached : Reached tree unit) : Operable unit := by
  have hFresh := Parsing.fresh_of_parse h
  obtain ⟨-, hSturdy⟩ := sturdy_reached hReached ⟨hFresh.isUnit, hFresh.sturdy⟩
  refine ⟨hSturdy.wellFormed, fun k cs hNode => (hSturdy.walk _ hNode).intact,
    fun n hn => (hSturdy.walk n hn).serviceable, fun r tree hTemplate cs hDecl n hn => ?_,
    fun r w w' why hGives => ?_⟩
  · exact ((r.sturdy_visitedIn hTemplate (hSturdy.walk _ hDecl)).walk n hn).serviceable
  · obtain ⟨result, hOk, -⟩ := r.sure_apply hSturdy w _ w' hGives
    cases hOk

open Sample in
theorem operable_reached_remarked : letI := library [remarked, holder]
    ∃ tree unit, Parsing.parse remarked.text = .ok tree ∧ Reached tree unit ∧
      unit.walk.any (·.denoted? == some Appender.base) = true ∧ Operable unit := by
  let _ := library [remarked, holder]
  have _ := lawful_holder isSound_remarked
  obtain ⟨unit, result, hUnit, hRun, -, -, hBase⟩ := run_remarked
  obtain ⟨tree, hTree, rfl⟩ := Option.map_eq_some_iff.mp hUnit
  have h : Parsing.parse remarked.text = .ok tree := (parse_iff isSound_remarked).mpr hTree
  have hReached : Reached tree result.node := (reached_run hRun).head (.attributed ⟨defaultStubs⟩ tree)
  exact ⟨tree, result.node, h, hReached, hBase, operable_reached h hReached⟩

end SourceMigration
