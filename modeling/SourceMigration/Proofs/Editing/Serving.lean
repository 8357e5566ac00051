import SourceMigration.Proofs.Editing.Passes

/-!
# SourceMigration — imports that a type needs

A type can be named simply if an import covers it, alone or with its package. What an import covers does
not depend on the trivia before it, nor does what the names of a unit denote depend on its imports.

## Results

* `any_names_of_reimports` — what some name of a unit is like, some name is like under other imports.
* `isDenoted_of_reimports` — a unit with other imports denotes no type that it did not denote before.
-/

namespace SourceMigration

namespace Node

/-- The names below a node denote the same types whatever stands before the node. -/
theorem exists_of_mem_names_withLeading {n m : Node} {l : String} (h : m ∈ (n.withLeading l).walk)
    (hForm : m.form = .name) :
    ∃ n' ∈ n.walk, n'.form = .name ∧ n'.nameParts = m.nameParts ∧ n'.denoted? = m.denoted? := by
  obtain ⟨n', hn', l', rfl⟩ := exists_of_mem_walk_withLeading h
  refine ⟨n', hn', by simpa using hForm, (parts_withLeading n' l').symm, ?_⟩
  obtain ⟨t, cs, rfl⟩ := exists_name (by simpa using hForm)
  rfl

/-- A name of a unit stands in one of its types. -/
theorem mem_bodyNames {unit m : Node} :
    m ∈ unit.bodyNames ↔ (∃ n ∈ unit.field .types, m ∈ n.walk) ∧ m.form = .name := by
  simp only [bodyNames, List.mem_flatMap, List.mem_filter]
  constructor
  · rintro ⟨n, hn, hm, hKind⟩
    refine ⟨⟨n, hn, hm⟩, ?_⟩
    split at hKind
    · rfl
    · cases hKind
  · rintro ⟨⟨n, hn, hm⟩, hForm⟩
    obtain ⟨t, cs, rfl⟩ := exists_name hForm
    exact ⟨n, hn, hm, rfl⟩

end Node

namespace Import

variable (imp : Node) (l : String)

theorem isStatic_withLeading : isStatic (imp.withLeading l) = isStatic imp := by
  obtain ⟨a, ha⟩ := imp.exists_field_withLeading l .staticWord
  simp [isStatic, ha]

theorem isWildcard_withLeading : isWildcard (imp.withLeading l) = isWildcard imp := by
  obtain ⟨b, hb⟩ := imp.exists_field_withLeading l .wildcard
  simp [isWildcard, hb]

theorem qualifiedName_withLeading : qualifiedName (imp.withLeading l) = qualifiedName imp := by
  obtain ⟨c, hc⟩ := imp.exists_field_withLeading l .name
  have hDotted (n : Node) : (n.withLeading c).dottedName = n.dottedName :=
    congrArg Text.joinDots (n.parts_withLeading c)
  simp only [qualifiedName, hc, Option.map_map, Function.comp_def, hDotted]

theorem simpleName_withLeading : simpleName (imp.withLeading l) = simpleName imp := by
  obtain ⟨c, hc⟩ := imp.exists_field_withLeading l .name
  have hLast (n : Node) : (n.withLeading c).nameParts.getLast? = n.nameParts.getLast? :=
    congrArg List.getLast? (n.parts_withLeading c)
  simp only [simpleName, hc, Option.bind_map, Function.comp_def, hLast]

end Import

namespace Imports

variable {p q : UnitParts} {t u : TypeName}

/-- What an import covers does not depend on what stands before it. -/
theorem cover_withLeading (t : TypeName) (imp : Node) (l : String) :
    cover? t (imp.withLeading l) = cover? t imp := by
  simp only [cover?, Import.isStatic_withLeading, Import.isWildcard_withLeading,
    Import.qualifiedName_withLeading, Import.simpleName_withLeading]

/-- A unit with other imports has the package it had. -/
theorem packageName_of_reimports (h : p.Reimports q) :
    Unit.packageName q.toUnit = Unit.packageName p.toUnit := by
  rw [Unit.packageName, Unit.packageName, q.package_toUnit, p.package_toUnit, h.package]

/-- What some name of a unit is like, some name is like when other imports are there. -/
theorem any_names_of_reimports (h : p.Reimports q) {f : Node → Bool}
    (hSame : ∀ m m' : Node, m'.nameParts = m.nameParts → m'.denoted? = m.denoted? → f m' = f m)
    (hSome : q.toUnit.bodyNames.any f = true) : p.toUnit.bodyNames.any f = true := by
  obtain ⟨m, hm, hSpec⟩ := List.any_eq_true.mp hSome
  obtain ⟨⟨n, hn, hm⟩, hForm⟩ := Node.mem_bodyNames.mp hm
  rw [q.types_toUnit] at hn
  obtain ⟨n', hn', l, rfl⟩ := h.types.exists_of_mem hn
  obtain ⟨m', hm', hForm', hParts, hDenoted⟩ := Node.exists_of_mem_names_withLeading hm hForm
  refine List.any_eq_true.mpr ⟨m', Node.mem_bodyNames.mpr ⟨⟨n', ?_, hm'⟩, hForm'⟩, ?_⟩
  · rwa [p.types_toUnit]
  · rwa [hSame m m' hParts hDenoted]

/-- A unit with other imports denotes no type that it did not denote before. -/
theorem isDenoted_of_reimports (h : p.Reimports q) (hDenoted : isDenoted q.toUnit t = true) :
    isDenoted p.toUnit t = true :=
  any_names_of_reimports h (fun m m' hParts hSame => by rw [hParts, hSame]) hDenoted

end Imports

end SourceMigration
