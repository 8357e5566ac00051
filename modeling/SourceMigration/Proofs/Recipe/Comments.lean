import SourceMigration.Proofs.Editing.Fronts
import SourceMigration.Proofs.Recipe.Again
import SourceMigration.Proofs.Recipe.Exposed

/-!
# SourceMigration — comments that survive

A run of the recipe spares comments: what stands in the package, in the imports of types that do not
go, in the types but for what `exposed` says, and at the end, is in the migrated unit, once and in
its order. The comments of an import that goes may go with it, for the passes may remove it before
another import takes them over.

## Results

* `fronted_migrated`    — the migration of a node begins where the node does.
* `run_spares_comments` — an edited text has all comments of the text it was, but exposed ones.
-/

namespace SourceMigration

-- ---------------------------------------------------------------------------
-- Where the types of a resolved unit begin
-- ---------------------------------------------------------------------------

/-- The first type of a resolved unit begins with a token. -/
theorem headed_of_resolve [TreeSitter] [LawfulTreeSitter] {classpath : Classpath} {text : String}
    {p : UnitParts}
    (h : resolve classpath text = .ok p.toUnit) : p.Headed := by
  intro n hn
  have hMem : (Field.types, n) ∈ p.toUnit.children := by
    simp [UnitParts.toUnit, Node.children, List.mem_of_mem_head? hn]
  exact ((sturdy_of_resolve h).2.child_of_mem hMem).fronted

namespace Appender

-- ---------------------------------------------------------------------------
-- Where a migrated node begins
-- ---------------------------------------------------------------------------

theorem keepsFronts_editLeaf : Node.KeepsFronts editLeaf := by
  intro k cs hk hFine hFront
  rcases Pass.exists_of_leaf hk hFine with ⟨t, ts, hEq⟩ | ⟨m, t, hEq⟩
  · rw [hEq] at hFront ⊢
    rw [editLeaf_name]
    cases t with
    | none => exact ⟨hFront, rfl⟩
    | some t =>
      simp only
      split
      · exact ⟨Node.fronted_ofDotted _ _ _, Node.leading_ofDotted _ _ _⟩
      · exact ⟨hFront, rfl⟩
  · rw [hEq, editLeaf_call]
    refine ⟨.branch (.token _), ?_⟩
    split <;> rfl

/-- The migration of a node begins where the node does. -/
theorem fronted_migrated (moved : Bool) {n : Node} (h : n.WellFormed) (hFront : n.Fronted) :
    (migrated moved n).Fronted ∧ (migrated moved n).leading = n.leading := by
  have hVisited : (recipe.visited newSupertype n).Fronted := recipe.fronted_visited h hFront
  have hLeading : (recipe.visited newSupertype n).leading = n.leading := recipe.leading_visited h
  unfold migrated
  cases moved with
  | false => exact ⟨hVisited, hLeading⟩
  | true =>
    have hFine := recipe.wellFormed_visited newSupertype ⟨by decide, wellFormed_newSupertype⟩ h
    obtain ⟨hFronted, hSame⟩ := Node.fronted_mapLeaves keepsFronts_editLeaf hFine hVisited
    exact ⟨hFronted, hSame.trans hLeading⟩

/-- The first type of a unit begins after the visit where it did before. -/
theorem typeLeading_visited {p : UnitParts} (hp : p.Sound) (hHeaded : p.Headed) :
    (p.mapTypes (recipe.visited newSupertype)).Headed ∧
      (p.mapTypes (recipe.visited newSupertype)).typeLeading = p.typeLeading := by
  unfold UnitParts.typeLeading UnitParts.Headed UnitParts.mapTypes
  cases hTypes : p.types with
  | nil => simp
  | cons first rest =>
    have hFine := (hp.types first (by simp [hTypes])).2
    simp [recipe.fronted_visited hFine (hHeaded first (by simp [hTypes])), recipe.leading_visited hFine]

-- ---------------------------------------------------------------------------
-- Units
-- ---------------------------------------------------------------------------

/-- The types whose imports may go. -/
def outgoing : List TypeName := [skeleton, legacyEvent, legacyLayout]

/-- The comments of a unit, where those are exposed that a run may take away. -/
def exposedUnit (unit : Node) : List Comment :=
  let p := unit.unitParts
  p.package.toList.flatMap (fun n => marked false n.comments) ++
    (p.imports.flatMap (fun imp =>
        if moves unit then importComments outgoing imp else marked false imp.comments) ++
      (p.types.flatMap (exposed (moves unit)) ++
        p.endMarker.flatMap fun n => marked false n.comments))

theorem comments_toUnit (p : UnitParts) : p.toUnit.comments =
    p.package.toList.flatMap Node.comments ++ (p.imports.flatMap Node.comments ++
      (p.types.flatMap Node.comments ++ p.endMarker.flatMap Node.comments)) := by
  rw [UnitParts.toUnit, Node.comments_branch]
  simp [List.flatMap_map]

/-- Every comment of a unit is accounted for. -/
theorem map_text_exposedUnit {p : UnitParts} (hp : p.Sound) :
    (exposedUnit p.toUnit).map Comment.text = p.toUnit.comments := by
  have hKept (ns : List Node) :
      (ns.flatMap fun n => marked false n.comments).map Comment.text =
        ns.flatMap Node.comments := by
    simp [List.map_flatMap]
  have hImports : (p.imports.flatMap fun imp =>
        if moves p.toUnit then importComments outgoing imp else marked false imp.comments).map
          Comment.text = p.imports.flatMap Node.comments := by
    rw [List.map_flatMap]
    refine List.flatMap_congr fun n _ => ?_
    split <;> exact map_text_marked _ _
  have hTypes : (p.types.flatMap (exposed (moves p.toUnit))).map Comment.text =
      p.types.flatMap Node.comments := by
    rw [List.map_flatMap]
    exact List.flatMap_congr fun n hn => map_text_exposed (hp.types n hn).2
  rw [exposedUnit, comments_toUnit, UnitParts.unitParts_toUnit]
  simp only [List.map_append, hKept, hImports, hTypes]

section Moved

variable {p q : UnitParts} (hp : p.Sound) (hHeaded : p.Headed)
  (hTypes : Refronts (p.types.map (migrated true)) q.types)
  (hFronts : Thins (p.fronts outgoing) (q.fronts outgoing))

include hp hHeaded hTypes hFronts

/-- What the passes do at the front of a unit fits to what the migration does in its types. -/
theorem thins_of_fronts :
    Thins (p.imports.flatMap (importComments outgoing) ++ p.types.flatMap (exposed true))
      (marked false (q.imports.flatMap Node.comments ++ q.types.flatMap Node.comments)) := by
  have hImports : Thins (q.imports.flatMap (importComments outgoing))
      (marked false (q.imports.flatMap Node.comments)) := by
    rw [marked_flatMap]
    exact Thins.flatMap fun n _ => Thins.stay _ _
  obtain ⟨l, hTypes⟩ := hTypes
  unfold UnitParts.fronts UnitParts.typeLeading at hFronts
  rw [hTypes] at hFronts ⊢
  rw [marked_append]
  cases hHead : p.types with
  | nil =>
    rw [hHead] at hFronts
    have hNone : marked false (Layout.comments "") = [] := rfl
    simp only [List.head?_nil, Option.map_none, Option.getD_none, List.map_nil,
      List.modifyHead_nil, hNone, List.append_nil] at hFronts
    simpa using hFronts.trans hImports
  | cons first rest =>
    have hFine := (hp.types first (by simp [hHead])).2
    have hRest : Thins (rest.flatMap (exposed true))
        (marked false ((rest.map (migrated true)).flatMap Node.comments)) := by
      rw [List.flatMap_map, marked_flatMap]
      exact Thins.flatMap fun n hn => thins_migrated (hp.types n (by simp [hHead, hn])).2
    rw [hHead] at hFronts
    simp only [List.map_cons, List.modifyHead_cons, List.head?_cons, Option.map_some,
      Option.getD_some, List.flatMap_cons, marked_append] at hFronts ⊢
    have hFirst : first.Fronted := hHeaded first (by simp [hHead])
    obtain ⟨hFront, hLeading⟩ := fronted_migrated true hFine hFirst
    obtain ⟨before, hBefore⟩ := exists_exposed_withLeading true hFine hFirst
    obtain ⟨after, hAfter⟩ := hFront.exists_comments
    have hExposed := hBefore first.leading
    have hComments := hAfter (migrated true first).leading
    rw [hFirst.withLeading_leading] at hExposed
    rw [hFront.withLeading_leading, hLeading] at hComments
    have hInner : Thins before (marked false after) := by
      have hAll : Thins (exposed true first) _ := thins_migrated hFine
      rw [hExposed, hComments, marked_append] at hAll
      exact hAll.cancel
    rw [hFront.leading_withLeading] at hFronts
    rw [hExposed, hAfter, marked_append]
    have hAll := ((hFronts.trans (hImports.append (.refl _))).append hInner).append hRest
    simpa only [List.append_assoc] using hAll

end Moved

/-- Where a class is moved, the run takes no comment from the front of the unit but those of imports
that may go. -/
theorem thins_fronts_of_run [TreeSitter] [ReadsTemplate] {classpath : Classpath} {text : String}
    {p q : UnitParts} {j : Journal}
    (h : Edited classpath text p q j) (hHeaded : p.Headed) (hMoves : moves p.toUnit = true) :
    Thins (p.fronts outgoing) (q.fronts outgoing) := by
  have hp := h.sound
  obtain ⟨j', hPasses⟩ := h.passes
  rw [if_pos hMoves] at hPasses
  obtain ⟨hHead, hLeading⟩ := typeLeading_visited hp hHeaded
  have hFronts : (p.mapTypes (recipe.visited newSupertype)).fronts outgoing = p.fronts outgoing := by
    rw [UnitParts.fronts, UnitParts.fronts, hLeading]
    rfl
  have hSpares : ∀ pass ∈ recipe.change.companions, pass.Spares outgoing := by
    have hNew : ∀ t ∈ [base, event, layout], importsOneOf outgoing (Node.importOf t) = false := by
      decide +kernel
    intro pass hPass
    simp only [recipe, companions, List.mem_cons, List.not_mem_nil, or_false] at hPass
    rcases hPass with rfl | rfl | rfl | rfl | rfl | rfl
    · trivial
    · exact ⟨by simp [outgoing], hNew event (by simp)⟩
    · exact ⟨by simp [outgoing], hNew layout (by simp)⟩
    · exact List.mem_cons_self
    · exact hNew base (by simp)
    · exact hNew event (by simp)
  rw [← hFronts]
  exact Pass.thins_runAll hSpares (hp.visited recipe ⟨by decide, wellFormed_newSupertype⟩) hHead
    hPasses

/-- An edited text has all comments of the text it was, each once and in their order, but for some that
are exposed. -/
theorem run_spares_comments [TreeSitter] [LawfulTreeSitter] [ReadsTemplate] {classpath : Classpath}
    {text : String} {path : Option String} (h : ((engine classpath).run text path).status = .edited) :
    ∃ (unit : Node) (q : UnitParts) (j : Journal), resolve classpath text = .ok unit ∧
      unit.text = text ∧ (exposedUnit unit).map Comment.text = unit.comments ∧
      (recipe.run unit j).1 = .ok ⟨q.toUnit, true⟩ ∧
      ((engine classpath).run text path).code = q.toUnit.text ∧
      Thins (exposedUnit unit) (marked false q.toUnit.comments) := by
  obtain ⟨p, q, j, hEdited, hCode⟩ := exists_edited h
  have hp := hEdited.sound
  refine ⟨p.toUnit, q, j, hEdited.resolved, hEdited.text_eq, map_text_exposedUnit hp, hEdited.run,
    hCode, ?_⟩
  have hHeaded := headed_of_resolve hEdited.resolved
  rw [exposedUnit, comments_toUnit, UnitParts.unitParts_toUnit]
  simp only [marked_append, ← marked_flatMap]
  cases hMoves : moves p.toUnit with
  | true =>
    have hReimports := hEdited.moved hMoves
    have hFronts := thins_fronts_of_run hEdited hHeaded hMoves
    have hInner := thins_of_fronts hp hHeaded hReimports.types hFronts
    rw [marked_append] at hInner
    have hPackage : q.package = p.package := hReimports.package
    have hEndMarker : q.endMarker = p.endMarker := hReimports.endMarker
    rw [hPackage, hEndMarker]
    have hAll := (Thins.refl (marked false (p.package.toList.flatMap Node.comments))).append
      (hInner.append (.refl (marked false (p.endMarker.flatMap Node.comments))))
    simpa only [if_true, List.append_assoc] using hAll
  | false =>
    obtain rfl := hEdited.kept hMoves
    refine (Thins.refl _).append (Thins.append ?_ (Thins.append ?_ (.refl _)))
    · simp only [Bool.false_eq_true, if_false, ← marked_flatMap]
      exact .refl _
    · rw [UnitParts.mapTypes, List.flatMap_map, marked_flatMap]
      exact Thins.flatMap fun n hn => thins_migrated (hp.types n hn).2

open Sample in
set_option maxRecDepth 100000 in
theorem run_spares_comments_remarked : letI := library [remarked, holder]
    ∃ (unit : Node) (q : UnitParts), resolve ⟨defaultStubs⟩ remarked.text = .ok unit ∧
      exposedUnit unit = [⟨"/* class */", false⟩, ⟨"// goes", true⟩, ⟨"// stays", false⟩] ∧
      ((engine ⟨defaultStubs⟩).run remarked.text).status = .edited ∧
      ((engine ⟨defaultStubs⟩).run remarked.text).code = q.toUnit.text ∧
      Thins (exposedUnit unit) (marked false q.toUnit.comments) := by
  let _ := library [remarked, holder]
  have _ := lawful_holder isSound_remarked
  have _ := readsTemplate_holder remarked_ne_holder
  have hSome : (remarked.resolved? ⟨defaultStubs⟩).map exposedUnit =
      some [⟨"/* class */", false⟩, ⟨"// goes", true⟩, ⟨"// stays", false⟩] := by decide +kernel
  obtain ⟨unit, hUnit, hExposed⟩ := Option.map_eq_some_iff.mp hSome
  have h : resolve ⟨defaultStubs⟩ remarked.text = .ok unit := (resolve_iff isSound_remarked).mpr hUnit
  obtain ⟨unit', q, j, hUnit', -, -, -, hCode, hThins⟩ := run_spares_comments (edited_remarked none)
  obtain rfl : unit = unit' := Except.ok.inj (h.symm.trans hUnit')
  exact ⟨unit, q, h, hExposed, edited_remarked none, hCode, hThins⟩

end Appender

end SourceMigration
