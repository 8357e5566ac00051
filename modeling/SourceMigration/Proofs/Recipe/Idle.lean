import SourceMigration.Proofs.Recipe.Again

/-!
# SourceMigration — runs with nothing to do

A class whose supertype is known is built anew by the visit even if nothing in it is edited, so a
unit counts as changed although it is what it was. Where no class is due, the visit gives every
class back and leaves the queue and the journal alone; no pass waits, the unit is printed as it was
read, and the trace tells of phases and decisions only.

## Results

* `gives_editClass_of_idle` — a class that is not due comes back as it is.
* `run_eq_of_idle`          — a run of the recipe on such a unit gives it back, quietly.
* `unchanged_of_idle`       — a text with nothing to do on is unchanged, and so its trace says.
-/

namespace SourceMigration

-- ---------------------------------------------------------------------------
-- Traces without edits
-- ---------------------------------------------------------------------------

namespace Trace

variable {t : Trace}

/-- No event tells of an edit, or of a pass that was scheduled or run. -/
def Quiet (t : Trace) : Prop :=
  ∀ e ∈ t.events, e.kind ∉ [EventKind.passScheduled, .passExecuted, .mutation]

/-- An event of another kind keeps a trace quiet. -/
theorem Quiet.push (h : t.Quiet) {e : Event} {outer : List Nat}
    (hKind : e.kind ∉ [EventKind.passScheduled, .passExecuted, .mutation]) :
    Quiet ⟨t.events.push e, outer⟩ := by
  intro d hd
  rcases Array.mem_push.mp hd with hd | rfl
  · exact h d hd
  · exact hKind

theorem Quiet.start (h : t.Quiet) (name detail : String) : (t.start name detail).Quiet :=
  h.push (by simp)

theorem Quiet.inspection (h : t.Quiet) (subject outcome detail : String) :
    (t.inspection subject outcome detail).Quiet :=
  h.push (by simp)

theorem Quiet.finish (h : t.Quiet) : t.finish.Quiet := by
  unfold Trace.finish
  split
  · exact h
  · exact h.push (by simp)

end Trace

-- ---------------------------------------------------------------------------
-- Visits that give every class back
-- ---------------------------------------------------------------------------

namespace Revision

variable {f : Node → EditM Replacement} {w : Workshop}

/-- A visit that gives every class back, those whose supertype is known built anew. -/
def restoringPlan (f : Node → EditM Replacement) (w : Workshop) : Plan where
  edit := f
  image := id
  edits := Supertype.isKnown
  moves _ := false
  Ready := (· = w)
  Leads _ := (· = ·)
  token _ := rfl
  other n h := by
    cases n with
    | token t => exact ⟨rfl, rfl⟩
    | branch k cs => cases k <;> first | exact ⟨rfl, rfl⟩ | exact absurd rfl h
  refl _ := rfl
  trans h h' := h.trans h'
  ready h hReady := h ▸ hReady

theorem fits_restoringPlan {n : Node} (h : ∀ m ∈ n.walk, m.form = .typeDeclaration →
    Gives (f m) w (if Supertype.isKnown m then .node m else .same) w) : (restoringPlan f w).Fits n where
  kept k cs _ _ := by simp [restoringPlan, Plan.below]
  edited cs hMem w' hReady := by
    obtain rfl : w' = w := hReady
    have hBelow : (restoringPlan f w').below cs = cs := by simp [restoringPlan, Plan.below]
    rw [hBelow]
    exact ⟨w', h _ hMem rfl, rfl⟩

end Revision

-- ---------------------------------------------------------------------------
-- Runs of the recipe
-- ---------------------------------------------------------------------------

namespace Appender

variable {w : Workshop}

/-- A class that is not due comes back as it is, and nothing is queued or recorded. -/
theorem gives_editClass_of_idle [TreeSitter] {n : Node} (hFine : n.WellFormed)
    (hForm : n.form = .typeDeclaration)
    (hIdle : isDue n = false) :
    Gives (recipe.editClass n) w (if Supertype.isKnown n then .node n else .same) w := by
  obtain ⟨cs, rfl⟩ := Node.exists_children (k := .typeDeclaration) rfl hForm
  obtain ⟨p, hp, hParts⟩ := hFine.exists_classParts
  rw [hp] at hIdle ⊢
  have hKnown : Supertype.isKnown p.toNode = p.denoted?.isSome := by
    rw [← p.denoted_toNode]
    rfl
  rw [isDue, Bool.or_eq_false_iff, hKnown] at hIdle
  unfold Recipe.editClass
  rw [hKnown, p.denoted_toNode]
  cases hDenoted : p.denoted? with
  | none => exact .pure _ _
  | some t =>
    have hOther : Supertype.match? recipe.legacy p.toNode = none := by
      have hOf : (Supertype.denoted? p.toNode == some recipe.legacy) = false := hIdle.1
      rw [Supertype.match?, if_neg (by simpa using hOf)]
    have hMembers : ∀ m ∈ p.members, recipe.table.decide m = .keep := by
      have hNone := hIdle.2
      rw [hDenoted, Option.isSome_some, Bool.true_and, ClassParts.members_toNode,
        List.any_eq_false] at hNone
      exact fun m hm => decide_of_undue (by simpa using hNone m hm)
    have hBody : p.toNode.field? .body = some p.body := by
      simp [Node.field?, ClassParts.toNode]
    have hSame (trace : Trace) : recipe.table.apply p.body trace = (p.body, false, trace) := by
      have hAll : (p.body.field .members).all (recipe.table.decide · == .keep) = true := by
        simpa [ClassParts.body, filed_cons, filed_map] using hMembers
      unfold MemberTable.apply
      simp only [if_pos hAll]
    have hBack : p.toNode.setField .body p.body = p.toNode := p.setField_body p.members
    simp only [hOther, Option.isNone_some, Bool.false_eq_true, if_false, Option.isSome_some, if_true]
    refine .bind (.pure _ _) ?_
    simp only [hBody]
    refine .bind (.get w) ?_
    simp only [hSame, hBack]
    exact .bind (.set _ _) (.pure _ _)

/-- The visit of a unit without a class that is due gives it back. -/
theorem gives_visitUnit_of_idle [TreeSitter] {unit : Node} (hFine : unit.WellFormed)
    (hIdle : ∀ n ∈ unit.walk, isDue n = false) :
    Gives (recipe.visitUnit unit) w ⟨unit, unit.walk.any Supertype.isKnown⟩ w := by
  obtain ⟨_, hRun, rfl⟩ := Plan.yields_apply (Revision.fits_restoringPlan fun m hm hForm =>
    gives_editClass_of_idle (hFine.walk m hm) hForm (hIdle m hm)) rfl
  exact Recipe.gives_visitUnit_of_apply hRun

/-- A run on a unit with nothing to do on gives the unit back and leaves the trace quiet. -/
theorem run_eq_of_idle [TreeSitter] {unit : Node} (hFine : unit.WellFormed)
    (hIdle : Gate.applies skeleton unit = true → ∀ n ∈ unit.walk, isDue n = false)
    {j : Journal} (hQuiet : j.trace.Quiet) :
    ∃ (changed : Bool) (j' : Journal),
      recipe.run unit j = (.ok ⟨unit, changed⟩, j') ∧ j'.trace.Quiet := by
  unfold Recipe.run
  cases hGate : Gate.applies recipe.gate unit with
  | false => exact ⟨false, _, rfl, hQuiet.inspection _ _ _⟩
  | true =>
    have hVisit : (recipe.visitUnit unit).run { journal := j.log (·.start "Primary Visit" recipe.name) } =
        (.ok ⟨unit, unit.walk.any Supertype.isKnown⟩,
          { journal := j.log (·.start "Primary Visit" recipe.name) }) :=
      gives_visitUnit_of_idle hFine (hIdle hGate)
    simp only [hVisit, Bool.not_true, Bool.false_eq_true, if_false, Queue.drain, Queue.runAll]
    exact ⟨_, _, rfl, (((hQuiet.start _ _).finish.start _ _).finish)⟩

end Appender

-- ---------------------------------------------------------------------------
-- Runs of the engine
-- ---------------------------------------------------------------------------

namespace Engine

variable (e : Engine) {code : String} (path : Option String)

/-- What comes of a text that is read, if the recipe does not fail and leaves the trace quiet. -/
theorem run_eq_of_quiet [TreeSitter] {tree : Node} (hParse : Parsing.parse code = .ok tree)
    (h : ∀ j : Journal, j.trace.Quiet → ∃ (result : Revised) (j' : Journal),
      e.recipe.run (Attribution.ofUnit e.classpath tree).value j = (.ok result, j') ∧
        j'.trace.Quiet ∧ result.node.text = code) :
    (e.run code path).status = .unchanged ∧ (e.run code path).code = code ∧
      (e.run code path).faults = [] ∧ (e.run code path).trace.Quiet := by
  have hEmpty : Trace.Quiet {} := fun d hd => absurd hd (by simp)
  unfold run
  simp only [hParse]
  generalize hStarted : Journal.log _ (·.start "Type Attribution" _) = j₀
  have hQuiet : j₀.trace.Quiet := by
    subst hStarted
    exact (((hEmpty.start _ _).start _ _).finish).start _ _
  obtain ⟨result, j, hRun, hAfter, hText⟩ := h ((j₀.remark _).log Trace.finish) hQuiet.finish
  rw [hRun]
  simp only
  cases result.changed with
  | false => exact ⟨rfl, rfl, rfl, hAfter.finish⟩
  | true =>
    rw [hText, if_pos rfl]
    exact ⟨rfl, rfl, rfl, ((hAfter.start _ _).finish).finish⟩

end Engine

namespace Appender

variable {classpath : Classpath}

/-- **A unit that does not mention the legacy type, or in which no class is due, is left unchanged**:
the text comes back, nothing fails, and no edit, scheduled pass or executed pass is recorded. -/
theorem unchanged_of_idle [TreeSitter] [LawfulTreeSitter] {code : String} {unit : Node}
    (h : resolve classpath code = .ok unit)
    (hIdle : Gate.applies skeleton unit = true → ∀ n ∈ unit.walk, isDue n = false)
    (path : Option String) :
    let result := (engine classpath).run code path
    result.status = .unchanged ∧ result.code = code ∧ result.faults = [] ∧
      ∀ e ∈ result.trace.events, e.kind ∉ [EventKind.passScheduled, .passExecuted, .mutation] := by
  obtain ⟨-, -, -, hFine, hText⟩ := exists_parts_of_resolve h
  obtain ⟨tree, hParse, rfl⟩ := exists_tree_of_resolve h
  refine (engine classpath).run_eq_of_quiet path hParse fun j hQuiet => ?_
  obtain ⟨changed, j', hRun, hAfter⟩ := run_eq_of_idle hFine hIdle hQuiet
  exact ⟨_, j', hRun, hAfter, hText⟩

open Draft in
/-- A mention of the legacy type, with a class that is built anew although nothing in it is to be edited. -/
def mentioning : Sample := .ofDraft (node "program" [
  importing ["AppenderSkeleton", "log4j", "apache", "org"],
  classOf "A" (typeWord "Thread" " ") (braced "class_body" [
    fieldOf (typeWord "AppenderSkeleton" " ") "b"]) "\n"]) "\n"

open Sample in
set_option maxRecDepth 100000 in
theorem unchanged_of_idle_mentioning : letI := library [mentioning]
    ∃ unit, resolve ⟨defaultStubs⟩ mentioning.text = .ok unit ∧
      (Gate.applies skeleton unit = true ∧ unit.walk.any Supertype.isKnown = true ∧
        ∀ n ∈ unit.walk, isDue n = false) ∧
      ((engine ⟨defaultStubs⟩).run mentioning.text).status = .unchanged ∧
      ((engine ⟨defaultStubs⟩).run mentioning.text).code = mentioning.text := by
  let _ := library [mentioning]
  have hSound : mentioning.isSound = true := by decide +kernel
  have _ := lawful_library (List.forall_mem_singleton.mpr hSound)
  have hSome : (mentioning.resolved? ⟨defaultStubs⟩).map (fun unit =>
      (Gate.applies skeleton unit, unit.walk.any Supertype.isKnown, unit.walk.any isDue)) =
      some (true, true, false) := by decide +kernel
  obtain ⟨unit, hUnit, hSome⟩ := Option.map_eq_some_iff.mp hSome
  simp only [Prod.mk.injEq] at hSome
  obtain ⟨hGate, hKnown, hIdle⟩ := hSome
  rw [List.any_eq_false] at hIdle
  have hIdle : ∀ n ∈ unit.walk, isDue n = false := fun n hn => by simpa using hIdle n hn
  have h : resolve ⟨defaultStubs⟩ mentioning.text = .ok unit := (resolve_iff hSound).mpr hUnit
  obtain ⟨hStatus, hCode, -⟩ := unchanged_of_idle h (fun _ => hIdle) none
  exact ⟨unit, h, ⟨hGate, hKnown, hIdle⟩, hStatus, hCode⟩

end Appender

end SourceMigration
