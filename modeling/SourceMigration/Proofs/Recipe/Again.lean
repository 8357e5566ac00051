import SourceMigration.Migration
import SourceMigration.Proofs.Editing.Draining
import SourceMigration.Proofs.Recipe.Complete
import SourceMigration.Proofs.Recipe.Frame
import SourceMigration.Proofs.Recipe.Reached

/-!
# SourceMigration — running again

A run on what an earlier run gave. A text that was not edited is what it was, so the second run is
the first. Where no class is due, the visit is the identity; and in what the recipe has made, none is. So it
keeps the unit that it has made. The printed text may still be edited once more: its new imports may tell
what a supertype denotes that was unknown before, when it is read again.

## Results

* `visited_of_idle`    — where no class is due, the visit changes nothing.
* `outcome_of_run`     — the engine answers what comes of the run, whatever journal that began with.
* `exists_edited`      — behind an edited text there is a unit that was read, and one that was made of it.
* `run_of_made`        — the recipe keeps what it has made.
* `run_again`          — what a second run does.
-/

namespace SourceMigration

namespace Appender

-- ---------------------------------------------------------------------------
-- Classes that are due
-- ---------------------------------------------------------------------------

/-- Whether a node is a class that the recipe has something to do on: it extends the legacy type, or
its supertype is known and it has a method that goes or gets another name. -/
def isDue (n : Node) : Bool :=
  Supertype.isOf skeleton n ||
    Supertype.isKnown n && n.members.any fun m =>
      m.form == .method && ["requiresLayout", "close"].contains m.declaredName

/-- A member is kept unless it is a method with one of the names in the table. -/
theorem decide_of_undue {m : Node}
    (h : (m.form == .method && ["requiresLayout", "close"].contains m.declaredName) = false) :
    recipe.table.decide m = .keep := by
  by_cases hMethod : m.form = .method
  · obtain ⟨cs, rfl⟩ := Node.exists_children (k := .method) rfl hMethod
    obtain ⟨hRemove, hClose⟩ : (Node.branch .method cs).declaredName ≠ "requiresLayout" ∧
        (Node.branch .method cs).declaredName ≠ "close" := by
      simpa [hMethod] using h
    rw [decide_method, if_neg hRemove, if_neg hClose]
  · by_contra hDecide
    obtain ⟨ds, rfl⟩ := MemberTable.exists_method_of_decide recipe.table hDecide
    exact hMethod rfl

/-- The edit of a class that is not due leaves it as it is. -/
theorem editParts_of_undue {p : ClassParts} (h : isDue p.toNode = false) :
    recipe.editParts newSupertype p = p := by
  rw [isDue, Bool.or_eq_false_iff] at h
  obtain ⟨hLegacy, hMembers⟩ := h
  unfold Recipe.editParts
  split
  · rfl
  · rename_i hKnown
    have hIsKnown : Supertype.isKnown p.toNode = true := by
      show (Supertype.denoted? p.toNode).isSome = true
      rw [ClassParts.denoted_toNode]
      simpa [Option.isSome_iff_ne_none] using hKnown
    rw [hIsKnown, Bool.true_and, ClassParts.members_toNode, List.any_eq_false] at hMembers
    have hSettled : recipe.table.settled p.members = p.members :=
      recipe.table.settled_of_keep fun m hm => decide_of_undue (by simpa using hMembers m hm)
    have hSupertype : p.extends?.map (recipe.movedSupertype newSupertype) = p.extends? := by
      cases hExtends : p.extends? with
      | none => rfl
      | some c =>
        have hOther : c.2.denoted? ≠ some recipe.legacy := by
          intro hDenoted
          have hOf : Supertype.isOf skeleton p.toNode = true := by
            show (Supertype.denoted? p.toNode == some skeleton) = true
            rw [ClassParts.denoted_toNode, ClassParts.denoted?, hExtends, Option.bind_some, hDenoted]
            rfl
          rw [hOf] at hLegacy
          cases hLegacy
        rw [Option.map_some, Recipe.movedSupertype, if_neg hOther]
    rw [hSettled, hSupertype]

/-- Where no class is due, the visit changes nothing. -/
theorem visited_of_idle {n : Node} (h : n.WellFormed) (hIdle : ∀ m ∈ n.walk, isDue m = false) :
    recipe.visited newSupertype n = n := by
  induction h with
  | token t => rw [Recipe.visited]
  | @branch k cs hFills hChildren ih =>
    have hSame : cs.map (fun c => (c.1, recipe.visited newSupertype c.2)) = cs := by
      refine (List.map_congr_left fun c hc => ?_).trans (List.map_id cs)
      rw [ih c hc fun m hm => hIdle m (Node.mem_walk_of_child hc hm)]
      rfl
    by_cases hk : k = .typeDeclaration
    · subst hk
      obtain ⟨p, hp, -⟩ := (Node.WellFormed.branch hFills hChildren).exists_classParts
      have hDue : isDue p.toNode = false := hp ▸ hIdle _ (by simp [Node.walk])
      rw [Recipe.visited, Recipe.visitedIn_eq, hSame, hp, Recipe.editedClass_toNode,
        editParts_of_undue hDue]
    · rw [recipe.visited_branch newSupertype hk, hSame]

section Runs

variable [TreeSitter] [ReadsTemplate] {p : UnitParts}

/-- A run on a unit without a class that is due gives the unit back. -/
theorem run_of_idle (hp : p.Sound) (hUnit : p.toUnit.WellFormed)
    (hIdle : Gate.applies skeleton p.toUnit = true → ∀ n ∈ p.toUnit.walk, isDue n = false) (j : Journal) :
    ∃ changed, (recipe.run p.toUnit j).1 = .ok ⟨p.toUnit, changed⟩ := by
  obtain ⟨q, changed, hRun, -, hNot, hGate⟩ := exists_run hp hUnit j
  refine ⟨changed, ?_⟩
  rw [hRun]
  cases hApplies : Gate.applies skeleton p.toUnit with
  | false => rw [(hNot hApplies).1]
  | true =>
    have hNone := hIdle hApplies
    have hMoves : moves p.toUnit = false := by
      rw [moves, List.any_eq_false]
      intro n hn
      have hDue := hNone n hn
      rw [isDue, Bool.or_eq_false_iff] at hDue
      simp [hDue.1]
    have hSame : p.mapTypes (migrated false) = p := by
      unfold UnitParts.mapTypes
      congr 1
      refine (List.map_congr_left fun n hn => ?_).trans (List.map_id p.types)
      refine visited_of_idle (hp.types n hn).2 fun m hm => hNone m ?_
      unfold UnitParts.toUnit
      exact Node.mem_walk_of_child (c := (.types, n)) (by simp [hn]) hm
    rw [(hGate hApplies).2.1 hMoves, hSame]

/-- In what the recipe has made of a unit that its gate lets in, no class is due. -/
theorem exists_run_undue (hp : p.Sound) (hUnit : p.toUnit.WellFormed)
    (hGate : Gate.applies skeleton p.toUnit = true) (j : Journal) :
    ∃ (q : UnitParts) (changed : Bool), (recipe.run p.toUnit j).1 = .ok ⟨q.toUnit, changed⟩ ∧ q.Sound ∧
      ∀ n ∈ q.toUnit.walk, isDue n = false := by
  obtain ⟨q, changed, hRun, hq, hFront⟩ := exists_refronts hp hUnit hGate j
  have hTypes := complete_of_refronts hFront fun n hn => (hp.types n hn).2
  refine ⟨q, changed, hRun, hq, fun n hn => ?_⟩
  rcases mem_walk_toUnit hn with rfl | ⟨n', hn', hn⟩ | ⟨n', hn', hn⟩
  · rfl
  · have hUnknown := (unknown_around hq hn' hn).1
    rw [isDue, isOf_of_isKnown hUnknown, hUnknown, Bool.false_and, Bool.or_self]
  · have hComplete := hTypes n' hn' n hn
    rw [isDue, hComplete.supertype, Bool.false_or, Bool.and_eq_false_imp]
    intro hKnown
    rw [List.any_eq_false]
    intro m hm
    have hMember := hComplete.members hKnown m hm
    simpa using hMember

/-- What the recipe has made of a sturdy unit, it keeps. -/
theorem run_of_made (hp : p.Sound) (hSturdy : p.toUnit.Sturdy) [LawfulTreeSitter]
    {result : Revised} {j : Journal}
    (hRun : (recipe.run p.toUnit j).1 = .ok result) (j' : Journal) :
    ∃ changed, (recipe.run result.node j').1 = .ok ⟨result.node, changed⟩ := by
  by_cases hGate : Gate.applies skeleton p.toUnit = true
  · obtain ⟨q, changed, hMade, hq, hUndue⟩ := exists_run_undue hp hSturdy.wellFormed hGate j
    obtain rfl := Except.ok.inj (hMade.symm.trans hRun)
    have hFine := (sturdy_reached (reached_run hMade) ⟨rfl, hSturdy⟩).2.wellFormed
    exact run_of_idle hq hFine (fun _ => hUndue) j'
  · have hNot : Gate.applies skeleton p.toUnit = false := by simpa using hGate
    rw [Recipe.run_of_not_gate (r := recipe) hNot] at hRun
    obtain rfl := Except.ok.inj hRun
    exact run_of_idle hp hSturdy.wellFormed (fun h => absurd h hGate) j'

end Runs

end Appender

-- ---------------------------------------------------------------------------
-- What comes of a text
-- ---------------------------------------------------------------------------

/-- A resolved unit is sturdy. -/
theorem sturdy_of_resolve [TreeSitter] [LawfulTreeSitter] {classpath : Classpath}
    {text : String} {unit : Node}
    (h : resolve classpath text = .ok unit) : unit.form = .unit ∧ unit.Sturdy := by
  obtain ⟨tree, hParse, rfl⟩ := exists_tree_of_resolve h
  have hFresh := Parsing.fresh_of_parse hParse
  exact sturdy_worked (.attributed classpath tree) ⟨hFresh.isUnit, hFresh.sturdy⟩

namespace Engine

variable [TreeSitter] (e : Engine) {code : String} (path : Option String)

/-- A text that is refused is kept. -/
theorem run_of_refused {why : Refusal} (h : resolve e.classpath code = .error why) :
    (e.run code path).status = .failed ∧ (e.run code path).code = code := by
  unfold resolve at h
  cases hParse : Parsing.parse code with
  | ok unit =>
    rw [hParse] at h
    cases h
  | error refusal =>
    unfold run
    rw [hParse]
    exact ⟨rfl, rfl⟩

/-- The text of a unit is kept or printed anew, as the recipe says. -/
theorem exists_run_of_resolve {unit : Node} (h : resolve e.classpath code = .ok unit) :
    ∃ j : Journal, ∀ result, (e.recipe.run unit j).1 = .ok result →
      (e.run code path).code = (if result.changed then result.node.text else code) ∧
      (e.run code path).status =
        if result.changed ∧ result.node.text ≠ code then .edited else .unchanged := by
  obtain ⟨tree, hParse, rfl⟩ := exists_tree_of_resolve h
  unfold run
  simp only [hParse]
  generalize Journal.log _ (·.start "Type Attribution" _) = j₀
  generalize Journal.log (j₀.remark _) Trace.finish = j
  refine ⟨j, fun result hResult => ?_⟩
  rcases hRun : e.recipe.run (Attribution.ofUnit e.classpath tree).value j with ⟨outcome, j'⟩
  rw [hRun] at hResult
  obtain rfl : outcome = .ok result := hResult
  simp only
  cases result.changed with
  | false => simp
  | true =>
    by_cases hSame : result.node.text = code
    · simp [hSame]
    · simp [hSame]

end Engine

namespace Appender

/-- The engine of the appender recipe. -/
def engine (classpath : Classpath) : Engine := ⟨recipe, classpath⟩

section Texts

variable [TreeSitter] {classpath : Classpath}

/-- How a text is edited: the unit that is read from it, the unit that the run makes of that, and what
the one has to do with the other. -/
structure Edited (classpath : Classpath) (text : String) (p q : UnitParts) (j : Journal) : Prop where
  resolved : resolve classpath text = .ok p.toUnit
  sound : p.Sound
  wellFormed : p.toUnit.WellFormed
  text_eq : p.toUnit.text = text
  gate : Gate.applies skeleton p.toUnit = true
  run : (recipe.run p.toUnit j).1 = .ok ⟨q.toUnit, true⟩
  kept : moves p.toUnit = false → q = p.mapTypes (migrated false)
  moved : moves p.toUnit = true → (p.mapTypes (migrated true)).Reimports q

/-- The unit that comes out is that of the visit after the passes. -/
theorem Edited.passes [ReadsTemplate] {text : String} {p q : UnitParts} {j : Journal}
    (h : Edited classpath text p q j) :
    ∃ j', (Queue.runAll (if moves p.toUnit then companions else [])
      ⟨(p.mapTypes (recipe.visited newSupertype)).toUnit, false⟩ j').1.node = q.toUnit := by
  obtain ⟨result, j', hResult, hPasses⟩ := Recipe.run_eq_runAll (r := recipe) h.sound h.wellFormed
    instantiate_template (by decide) h.gate j
  have hNode : result.node = q.toUnit :=
    congrArg Revised.node (Except.ok.inj (hResult.symm.trans h.run))
  exact ⟨j', (congrArg Revised.node hPasses).trans hNode⟩

variable [LawfulTreeSitter] [ReadsTemplate]

/-- What comes of a run does not depend on the journal. -/
theorem fst_run {text : String} {unit : Node} (h : resolve classpath text = .ok unit) (j j' : Journal) :
    (recipe.run unit j).1 = (recipe.run unit j').1 := by
  obtain ⟨p, rfl, hp, hUnit, -⟩ := exists_parts_of_resolve h
  cases hGate : Gate.applies recipe.gate p.toUnit with
  | false => rw [Recipe.run_of_not_gate hGate, Recipe.run_of_not_gate hGate]
  | true =>
    obtain ⟨first, i, hFirst, rfl⟩ := Recipe.run_eq_runAll (r := recipe) hp hUnit
      instantiate_template (by decide) hGate j
    obtain ⟨second, i', hSecond, rfl⟩ := Recipe.run_eq_runAll (r := recipe) hp hUnit
      instantiate_template (by decide) hGate j'
    rw [hFirst, hSecond, Queue.fst_runAll _ _ i i']

/-- What the engine answers, by what comes of the run on the unit of the text. -/
theorem outcome_of_run {text : String} {unit : Node} {result : Revised} {j : Journal}
    (hUnit : resolve classpath text = .ok unit) (hRun : (recipe.run unit j).1 = .ok result)
    (path : Option String) :
    ((engine classpath).run text path).code = (if result.changed then result.node.text else text) ∧
      ((engine classpath).run text path).status =
        if result.changed ∧ result.node.text ≠ text then .edited else .unchanged := by
  obtain ⟨i, hAnswer⟩ := (engine classpath).exists_run_of_resolve path hUnit
  exact hAnswer result ((fst_run hUnit i j).trans hRun)

/-- A run that makes another text of a unit edits the text. -/
theorem edited_of_run {text : String} {unit : Node} {result : Revised} {j : Journal}
    (hUnit : resolve classpath text = .ok unit) (hRun : (recipe.run unit j).1 = .ok result)
    (hChanged : result.changed = true) (hOther : result.node.text ≠ text) (path : Option String) :
    ((engine classpath).run text path).status = .edited ∧
      ((engine classpath).run text path).code = result.node.text := by
  obtain ⟨hCode, hStatus⟩ := outcome_of_run hUnit hRun path
  rw [hCode, hStatus, if_pos ⟨hChanged, hOther⟩, if_pos hChanged]
  exact ⟨rfl, rfl⟩

/-- A text that is not edited is kept. -/
theorem code_of_not_edited {code : String} {path : Option String}
    (h : ((engine classpath).run code path).status ≠ .edited) :
    ((engine classpath).run code path).code = code := by
  cases hResolve : resolve classpath code with
  | error why => exact ((engine classpath).run_of_refused path hResolve).2
  | ok unit =>
    obtain ⟨p, rfl, hp, hUnit, -⟩ := exists_parts_of_resolve hResolve
    obtain ⟨q, changed, hResult, -⟩ := exists_run hp hUnit {}
    obtain ⟨hCode, hStatus⟩ := outcome_of_run hResolve hResult path
    rw [hStatus] at h
    rw [hCode]
    by_cases hSame : q.toUnit.text = code
    · simp [hSame]
    · cases hChanged : changed with
      | false => rfl
      | true => simp [hChanged, hSame] at h

/-- Behind an edited text there are such units. -/
theorem exists_edited {text : String} {path : Option String}
    (h : ((engine classpath).run text path).status = .edited) :
    ∃ p q j, Edited classpath text p q j ∧
      ((engine classpath).run text path).code = q.toUnit.text := by
  cases hResolve : resolve classpath text with
  | error why =>
    rw [((engine classpath).run_of_refused path hResolve).1] at h
    cases h
  | ok unit =>
    obtain ⟨p, rfl, hp, hUnit, hText⟩ := exists_parts_of_resolve hResolve
    obtain ⟨q, changed, hResult, -, hNot, hApplies⟩ := exists_run hp hUnit {}
    obtain ⟨hCode, hStatus⟩ := outcome_of_run hResolve hResult path
    rw [hStatus] at h
    have hChanged : changed = true := by
      by_contra hSame
      simp [hSame] at h
    subst hChanged
    have hGate : Gate.applies skeleton p.toUnit = true := by
      by_contra hGate
      cases (hNot (by simpa using hGate)).2
    obtain ⟨-, hKept, hMoved⟩ := hApplies hGate
    exact ⟨p, q, {}, ⟨hResolve, hp, hUnit, hText, hGate, hResult, hKept, hMoved⟩, by simpa using hCode⟩

/-- **A second run.** A text that was not edited is what it was, and a second run ends as the first. A text
that was edited is printed from a unit that the recipe keeps, whatever journal it begins with: only where the
printed text is read again, and its names denote what they did not denote before, is there more to do. -/
theorem run_again (classpath : Classpath) (code : String) (path : Option String) :
    let first := (engine classpath).run code path
    (first.status ≠ .edited → first.code = code ∧ (engine classpath).run first.code path = first) ∧
      (first.status = .edited → ∃ p q j, Edited classpath code p q j ∧ first.code = q.toUnit.text ∧
        ∀ j', ∃ changed, (recipe.run q.toUnit j').1 = .ok ⟨q.toUnit, changed⟩) := by
  intro first
  refine ⟨fun hNot => ?_, fun hEdited => ?_⟩
  · have hCode : first.code = code := code_of_not_edited hNot
    exact ⟨hCode, by rw [hCode]⟩
  · obtain ⟨p, q, j, hEdits, hCode⟩ := exists_edited hEdited
    have hSturdy := (sturdy_of_resolve hEdits.resolved).2
    exact ⟨p, q, j, hEdits, hCode, run_of_made hEdits.sound hSturdy hEdits.run⟩

end Texts

open Sample in
set_option maxRecDepth 100000 in
/-- The class with comments is edited. -/
theorem edited_remarked (path : Option String) : letI := library [remarked, holder]
    ((engine ⟨defaultStubs⟩).run remarked.text path).status = .edited := by
  let _ := library [remarked, holder]
  have _ := lawful_holder isSound_remarked
  have _ := readsTemplate_holder remarked_ne_holder
  obtain ⟨unit, result, hUnit, hRun, hChanged, hText, -⟩ := run_remarked
  have h : resolve ⟨defaultStubs⟩ remarked.text = .ok unit := (resolve_iff isSound_remarked).mpr hUnit
  exact (edited_of_run h hRun hChanged (hText ▸ by decide +kernel) path).1

open Sample in
theorem run_again_remarked : letI := library [remarked, holder]
    ∃ first, (engine ⟨defaultStubs⟩).run remarked.text = first ∧ first.status = .edited ∧
      ∃ p q j, Edited ⟨defaultStubs⟩ remarked.text p q j ∧ first.code = q.toUnit.text ∧
        ∀ j', ∃ changed, (recipe.run q.toUnit j').1 = .ok ⟨q.toUnit, changed⟩ := by
  let _ := library [remarked, holder]
  have _ := lawful_holder isSound_remarked
  have _ := readsTemplate_holder remarked_ne_holder
  exact ⟨_, rfl, edited_remarked none, (run_again ⟨defaultStubs⟩ remarked.text none).2 (edited_remarked none)⟩

end Appender

end SourceMigration
