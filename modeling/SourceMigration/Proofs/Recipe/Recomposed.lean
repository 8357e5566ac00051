import SourceMigration.Proofs.Recipe.Omission
import SourceMigration.Proofs.Recipe.Worded

/-!
# SourceMigration — edited units are composed again

Like the addition and the removal of an import, each pass and the visit of a recipe leave a composed unit
composed. So all that is said of the imports of composed units holds of fresh units that have been
resolved, and of whatever was edited before.

## Results

* `Composed.run`     — a pass leaves a composed unit composed.
* `Composed.visited` — so does a visit.
-/

namespace SourceMigration

namespace UnitParts.Composed

variable {p : UnitParts}

/-- What a pass does to names and calls leaves a unit composed. -/
theorem onType (hp : p.Composed) {pass : Pass} (hPass : pass.Writes (· ≠ "")) :
    (p.mapTypes pass.onType).Composed :=
  ⟨Pass.sound_onType pass hp.sound, (Pass.leading_onType pass hp.sound hp.headed).1,
    Pass.tidy_onType hPass hp.sound hp.tidy, hp.closed⟩

/-- A pass leaves a composed unit composed. -/
theorem run (hp : p.Composed) {pass : Pass} (hPass : pass.Writes (· ≠ "")) (j : Journal) :
    ∃ q : UnitParts, (pass.run p.toUnit j).1.node = q.toUnit ∧ q.Composed := by
  cases pass with
  | renameMethod pattern newName =>
    exact ⟨_, Pass.renameCalls_toUnit hp.sound pattern newName, hp.onType hPass⟩
  | addImport t =>
    obtain ⟨q, hq, -, -⟩ := Imports.reimports_add hp.sound t
    exact ⟨q, hq, Imports.composed_add hPass hp hq⟩
  | removeImport t =>
    obtain ⟨q, hq, -, -⟩ := Imports.reimports_remove hp.sound t
    exact ⟨q, hq, Imports.composed_remove hp hq⟩
  | changeType old new =>
    obtain ⟨q, hq, -, -⟩ := Imports.reimports_remove (hp.onType hPass).sound old
    have hRemoved : q.Composed := Imports.composed_remove (hp.onType hPass) hq
    obtain ⟨r, hr, -, -⟩ := Imports.reimports_add hRemoved.sound new
    refine ⟨r, ?_, Imports.composed_add hPass.1 hRemoved hr⟩
    simp only [Pass.run, Pass.runAdd, Pass.runRemove, Pass.changeTypes_toUnit hp.sound.formed, hq, hr]

/-- A visit leaves a composed unit composed, whatever supertype it writes. -/
theorem visited (hp : p.Composed) {r : Recipe} {tree : Node} (hTable : ∀ e ∈ r.table.rename, e.2 ≠ "")
    (hTree : tree.Clear) (hForm : tree.form ∈ [Form.name, .parameterized] ∧ tree.WellFormed) :
    r.visited tree p.toUnit = (p.mapTypes (r.visited tree)).toUnit ∧
    (p.mapTypes (r.visited tree)).Composed := by
  refine ⟨hp.sound.visited_toUnit r tree, hp.sound.visited r hForm, fun n hn => ?_,
    Recipe.tidy_visited hTable hTree hForm hp.sound hp.tidy, hp.closed⟩
  obtain ⟨m, hm, rfl⟩ := Option.map_eq_some_iff.mp (by simpa [mapTypes] using hn)
  exact r.fronted_visited (hp.sound.types m (List.mem_of_head? hm)).2 (hp.headed m hm)

end UnitParts.Composed

end SourceMigration
