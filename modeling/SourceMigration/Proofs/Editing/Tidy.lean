import SourceMigration.Proofs.Editing.Durable
import SourceMigration.Proofs.Tree.Clear

/-!
# SourceMigration — the passes keep tokens apart

An import that comes or goes hands trivia on to a neighbour, and the passes over names and calls
write new spellings. After each of them the tokens of the unit still stand apart: what is handed
on was trivia before, and what is written has no empty part.

## Results

* `tidy_add`, `tidy_remove` — adding and removing an import keeps the nodes of a unit tidy.
* `tidy_onType`             — so do the edits of names and calls.
-/

namespace SourceMigration

-- ---------------------------------------------------------------------------
-- Adding and removing imports
-- ---------------------------------------------------------------------------

namespace Imports

variable {p q : UnitParts} {t : TypeName}

theorem blanks_lineEnd (text : String) : Layout.Blanks (lineEnd text) := by
  have hFeed : Text.isGap '\n' = true := rfl
  have hReturn : Text.isGap '\r' = true := rfl
  unfold lineEnd Layout.Blanks
  simp only
  split <;> simp [hFeed, hReturn]

/-- Adding an import keeps the nodes of a unit tidy. -/
theorem tidy_add (ht : ∀ part ∈ Text.splitDots t.text, part ≠ "") (h : Tidy p.nodes)
    (hq : (add p.toUnit t).unit = q.toUnit) : Tidy q.nodes := by
  have hEnd := blanks_lineEnd p.toUnit.text
  have hEnds := Layout.separates_of_blanks (hEnd.append hEnd)
  rcases add_cases hq with rfl | hAdds
  · exact h
  cases hAdds with
  | @before front back next hImports =>
    have hSplit : p.nodes = (p.package.toList ++ front) ++ next :: (back ++ p.types) := by
      simp [UnitParts.nodes, hImports]
    rw [hSplit] at h
    have hAll := h.handOver (m := Node.importOf t next.leading)
      (fun hNext => Node.opens_importOf ht hNext.2)
      (fun hNext => Node.clear_importOf ht hNext.leading) (Layout.separates_of_blanks hEnd)
    simpa [UnitParts.nodes] using hAll
  | @behind front back last hImports =>
    have hSplit : p.nodes = (p.package.toList ++ (front ++ [last])) ++ (back ++ p.types) := by
      simp [UnitParts.nodes, hImports]
    rw [hSplit] at h
    have hAll := h.insert (by simp) (Node.clear_importOf ht (Layout.separates_of_blanks hEnd))
    simpa [UnitParts.nodes] using hAll
  | alone hImports hPackage =>
    obtain ⟨package, hSome⟩ := Option.ne_none_iff_exists'.mp hPackage
    rw [UnitParts.nodes, hImports, hSome] at h
    rw [UnitParts.nodes, hSome]
    exact Tidy.insert h (by simp) (Node.clear_importOf ht hEnds)
  | @first first rest hImports hPackage hTypes =>
    rw [UnitParts.nodes, hImports, hPackage, hTypes] at h
    rw [UnitParts.nodes, hPackage]
    have hTypes : Tidy ([] ++ first :: rest) := h
    exact hTypes.handOver (fun hFirst => Node.opens_importOf ht hFirst.2)
      (fun hFirst => Node.clear_importOf ht hFirst.leading) hEnds

/-- Removing an import keeps the nodes of a unit tidy. -/
theorem tidy_remove (h : Tidy p.nodes) (hq : (remove p.toUnit t).unit = q.toUnit) :
    Tidy q.nodes := by
  rcases remove_cases hq with rfl | ⟨front, imp, back, hImports, -, hDrops⟩
  · exact h
  have hSplit : p.nodes = (p.package.toList ++ front) ++ imp :: (back ++ p.types) := by
    simp [UnitParts.nodes, hImports]
  -- the blanks of the import that goes may stand anywhere
  have hSpacing : Layout.Blanks (Text.leadingBlank imp.leading) := by
    have hOpens : imp.Opens := h.opens (by simp [hSplit])
    exact hOpens.2.blanks
  rw [hSplit] at h
  have hRest := h.erase
  cases hDrops with
  | closed => simpa [UnitParts.nodes] using hRest
  | @handed front rest next hNone =>
    have hRest : Tidy ((p.package.toList ++ front) ++ next :: (rest ++ p.types)) := hRest
    simpa [UnitParts.nodes] using hRest.refront (Layout.separates_of_blanks hSpacing)
  | @first first rest hPackage hTypes =>
    rw [hPackage, hTypes] at h hRest
    rw [UnitParts.nodes, hPackage]
    -- the first type stood behind the import, so nothing but trivia is before it
    have hFirst : first.Clear := h.2 first (by simp)
    have hTypes : Tidy ([] ++ first :: rest) := hRest
    exact hTypes.refront (hSpacing.separates hFirst.leading.dropBlank)

end Imports

-- ---------------------------------------------------------------------------
-- Passes
-- ---------------------------------------------------------------------------

namespace Pass

variable {p q : UnitParts}

/-- An edit of names and calls in the types of a unit. -/
theorem tidy_mapLeaves {f : Node → Node} (hf : Node.EditsLeaves f) (hFronts : Node.KeepsFronts f)
    (hClear : Node.KeepsEach Layout.Spelled f) (hp : p.Sound) (h : Tidy p.nodes) :
    Tidy (p.mapTypes (Node.mapLeaves f)).nodes := by
  rw [UnitParts.nodes, ← List.append_assoc] at h ⊢
  refine h.map (fun n hn => ?_) fun n hn => Node.each_mapLeaves hClear (hp.types n hn).2
  have hFine := (hp.types n hn).2
  exact Node.Opens.map (fun l => Node.each_mapLeaves hClear (hFine.withLeading l))
    (Node.exists_mapLeaves_withLeading hf hFine)
    fun hFront => (Node.fronted_mapLeaves hFronts hFine hFront).2

/-- The part of a pass that edits names and calls keeps the nodes of a unit tidy. -/
theorem tidy_onType {pass : Pass} (hPass : pass.Writes (· ≠ "")) (hp : p.Sound) (h : Tidy p.nodes) :
    Tidy (p.mapTypes pass.onType).nodes := by
  have hSame : p.mapTypes id = p := by simp [UnitParts.mapTypes]
  cases pass with
  | renameMethod pattern newName =>
    exact tidy_mapLeaves (editsLeaves_rename pattern newName) (keepsFronts_rename pattern newName)
      (keepsEach_rename Layout.durable_spelled hPass pattern) hp h
  | changeType old new =>
    have hNames := tidy_mapLeaves (editsLeaves_name old new) (keepsFronts_name old new)
      (keepsEach_name Layout.durable_spelled hPass.1 hPass.2 old) hp h
    have hCalls := tidy_mapLeaves (editsLeaves_method old new) (keepsFronts_method old new)
      (keepsEach_method old new) (hp.mapTypes (editsLeaves_name old new)) hNames
    simpa [UnitParts.mapTypes, onType, Function.comp_def] using hCalls
  | addImport t =>
    rw [onType, hSame]
    exact h
  | removeImport t =>
    rw [onType, hSame]
    exact h

end Pass

end SourceMigration
