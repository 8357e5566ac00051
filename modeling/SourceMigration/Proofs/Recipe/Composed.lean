import SourceMigration.Proofs.Editing.Tidy
import SourceMigration.Proofs.Recipe.Removal
import SourceMigration.Proofs.Tree.Serviceable
import SourceMigration.Proofs.Typing.Spelled

/-!
# SourceMigration — units whose imports can be edited

All that matters of a unit when its imports are edited is said here. Its parts fill the slots of a unit and
stand apart as tokens do in a text, its first type begins with a token, and the package and each import end
with a semicolon, so that a line can begin right after any of them. Every fresh unit is so composed when it
has been resolved.

## Results

* `exists_composed` — a fresh unit is composed when it has been resolved.
-/

namespace SourceMigration

-- ---------------------------------------------------------------------------
-- Composed units
-- ---------------------------------------------------------------------------

/-- Parts of a unit with all that is asked of them when imports are edited. -/
structure UnitParts.Composed (p : UnitParts) : Prop where
  sound : p.Sound
  /-- The first type begins with a token. -/
  headed : p.Headed
  /-- Tokens have a spelling, and before each stand blanks and complete comments. -/
  tidy : Tidy p.nodes
  /-- The package and the imports end with a semicolon. -/
  closed : ∀ n ∈ p.package.toList ++ p.imports, n.Closed

namespace Node

/-- What stands before a node does not matter for its semicolon. -/
theorem Closed.withLeading {n : Node} (h : n.Closed) (l : String) : (n.withLeading l).Closed := by
  cases n with
  | token t => exact h
  | branch k cs =>
    obtain ⟨t, ht, hSign⟩ := h
    cases cs with
    | nil => cases ht
    | cons c cs =>
      obtain ⟨f, n⟩ := c
      rw [withLeading_branch, withLeadingIn_cons]
      have hFiled : filed .semicolon ((f, n) :: cs) = [.token t] := ht
      rw [filed_cons] at hFiled
      by_cases hf : f = .semicolon
      · rw [if_pos hf] at hFiled
        obtain ⟨rfl, hRest⟩ := List.cons.inj hFiled
        refine ⟨t.withLeading l, ?_, hSign⟩
        show filed .semicolon ((f, (Node.token t).withLeading l) :: cs) = _
        rw [filed_cons, if_pos hf, hRest]
        rfl
      · rw [if_neg hf] at hFiled
        refine ⟨t, ?_, hSign⟩
        show filed .semicolon ((f, n.withLeading l) :: cs) = _
        rw [filed_cons, if_neg hf, hFiled]

theorem closed_importOf (t : TypeName) (l : String) : (importOf t l).Closed := ⟨_, rfl, rfl, rfl⟩

end Node

namespace Attribution

/-- Giving the name of an import the type it names leaves its semicolon alone. -/
theorem closed_ofImport {imp i : Node} (h : imp.Closed) (hi : i ∈ (ofImport imp).value) : i.Closed := by
  unfold ofImport at hi
  split at hi
  · split at hi
    · obtain rfl := List.mem_singleton.mp hi
      cases imp with
      | token t => exact h
      | branch k cs =>
        obtain ⟨t, ht, hSign⟩ := h
        exact ⟨t, (filed_replaceFirst (by simp) _ cs).trans ht, hSign⟩
    · obtain rfl := List.mem_singleton.mp hi
      exact h
  · obtain rfl := List.mem_singleton.mp hi
    exact h

/-- The package and the imports of a unit are closed after attribution as before. -/
theorem closed_ofUnit (classpath : Classpath) {unit : Node} (h : unit.Fresh) :
    ∀ m ∈ (ofUnit classpath unit).value.field .package ++ (ofUnit classpath unit).value.field .imports,
      m.Closed := by
  intro m hm
  rcases List.mem_append.mp hm with hm | hm
  · rw [package_ofUnit classpath h.wellFormed h.isUnit] at hm
    exact h.closed m (List.mem_append_left _ hm)
  · obtain ⟨imp, hImp, hi⟩ := exists_import_of_ofUnit classpath h.wellFormed h.isUnit hm
    exact closed_ofImport (h.closed imp (List.mem_append_right _ hImp)) hi

end Attribution

/-- A unit ends with one token. -/
theorem UnitParts.exists_end {p : UnitParts} (h : p.toUnit.WellFormed) :
    ∃ t, p.endMarker = [.token t] := by
  obtain ⟨t, ht⟩ := h.exists_filed_token (f := .endMarker) (by simp [NodeKind.slots])
  exact ⟨t, p.endMarker_toUnit.symm.trans ht⟩

/-- A fresh unit is composed when it has been resolved. -/
theorem exists_composed (classpath : Classpath) {tree : Node} (h : tree.Fresh) :
    ∃ p : UnitParts, (Attribution.ofUnit classpath tree).value = p.toUnit ∧ p.Composed := by
  obtain ⟨p, hp, hSound⟩ := sound_ofUnit classpath h
  obtain ⟨-, hSturdy⟩ := Attribution.sturdy_ofUnit classpath h.sturdy h.isUnit
  have hClosed := Attribution.closed_ofUnit classpath h
  have hApart : Layout.Partition p.toUnit.tokens := by
    rw [← hp, Attribution.tokens_ofUnit classpath h.wellFormed h.isUnit]
    exact h.apart
  rw [hp] at hSturdy hClosed
  have hFronted : ∀ n ∈ p.nodes, n.Fronted := by
    intro n hn
    obtain ⟨f, hMem⟩ : ∃ f, (f, n) ∈ p.toUnit.children := by
      simp only [UnitParts.nodes, List.mem_append] at hn
      rcases hn with hn | hn | hn
      · exact ⟨.package, by simp [UnitParts.toUnit, Node.children, Option.mem_toList.mp hn]⟩
      · exact ⟨.imports, by simp [UnitParts.toUnit, Node.children, hn]⟩
      · exact ⟨.types, by simp [UnitParts.toUnit, Node.children, hn]⟩
    exact (hSturdy.child_of_mem hMem).fronted
  refine ⟨p, hp, hSound, fun n hn => hFronted n ?_, ?_, ?_⟩
  · simp [UnitParts.nodes, List.mem_of_mem_head? hn]
  · obtain ⟨t, ht⟩ := UnitParts.exists_end hSturdy.wellFormed
    rw [UnitParts.tokens_toUnit] at hApart
    exact (tidy_of_partition hApart (by simp [ht, Node.tokens]) hFronted).1
  · intro n hn
    refine hClosed n ?_
    rw [p.imports_toUnit]
    refine (List.mem_append.mp hn).imp ?_ id |> List.mem_append.mpr
    intro hPackage
    rw [Option.mem_toList, ← p.package_toUnit] at hPackage
    exact List.mem_of_head? hPackage

theorem exists_composed_of_sample {s : Sample} (hSound : s.isSound = true)
    {classpath : Classpath} {unit : Node}
    (h : s.resolved? classpath = some unit) : ∃ p : UnitParts, unit = p.toUnit ∧ p.Composed := by
  obtain ⟨tree, hTree, rfl⟩ := Option.map_eq_some_iff.mp h
  exact exists_composed classpath (Parsing.fresh_of_sample hSound hTree)

end SourceMigration
