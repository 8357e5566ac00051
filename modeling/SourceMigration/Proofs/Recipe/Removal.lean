import SourceMigration.Proofs.Recipe.Migrated
import SourceMigration.Proofs.Typing.Divided
import SourceMigration.Proofs.Typing.Justified

/-!
# SourceMigration — what an import is removed for

An import is removed when no simple name refers to its type. A name refers to the type if it denotes
it, and also if it denotes nothing and is spelled like it, so that a name which could not be resolved
keeps the import. In a statement this holds of dotted names as well: while the import is there, the
first part of a dotted name that is spelled like the type means something, so that the name was
divided after it. A dotted name elsewhere is left whole and does not count.

## Results

* `remove_spares_names` — the names that an import is removed in spite of.
-/

namespace SourceMigration

-- ---------------------------------------------------------------------------
-- Imports in the scope
-- ---------------------------------------------------------------------------

namespace Scope

/-- The simple name of a single-type import is among those imported. -/
theorem lookup_explicit_of_import {classpath : Classpath} {unit imp : Node}
    (hImport : imp ∈ unit.field .imports) (hSingle : Import.isSingle imp = true) :
    (ofUnit unit classpath).explicit.lookup (Import.simpleName imp) ≠ none := by
  have hEntry : (Import.simpleName imp, (⟨Import.qualifiedName imp⟩ : TypeName)) ∈
      (((unit.field .imports).filter fun i => !Import.isStatic i).filter Import.isSingle).map
        fun i => (Import.simpleName i, ⟨Import.qualifiedName i⟩) := by
    refine List.mem_map.mpr ⟨imp, ?_, rfl⟩
    simp only [List.mem_filter]
    refine ⟨⟨hImport, ?_⟩, hSingle⟩
    simp only [Import.isSingle, Bool.and_eq_true] at hSingle
    exact hSingle.1
  show (firstOfEach _).lookup _ ≠ none
  rw [lookup_firstOfEach]
  intro hNone
  simpa using List.lookup_eq_none_iff.mp hNone _ hEntry

/-- The simple name of a single-type import means something. -/
theorem resolveSimple_of_import {classpath : Classpath} {unit imp : Node}
    (hImport : imp ∈ unit.field .imports) (hSingle : Import.isSingle imp = true) :
    (ofUnit unit classpath).resolveSimple (Import.simpleName imp) ≠ none := by
  have hExplicit : (ofUnit unit classpath).explicit.lookup (Import.simpleName imp) ≠ none :=
    lookup_explicit_of_import hImport hSingle
  obtain ⟨t, ht⟩ := Option.ne_none_iff_exists'.mp hExplicit
  unfold resolveSimple
  cases (ofUnit unit classpath).declared.lookup (Import.simpleName imp) with
  | some t => simp
  | none => simp [ht]

end Scope

namespace Attribution

/-- Giving the name of an import the type it names does not change what is imported. -/
theorem mem_ofImport {imp i : Node} (h : i ∈ (ofImport imp).value) :
    Import.qualifiedName i = Import.qualifiedName imp ∧ Import.isSingle i = Import.isSingle imp := by
  unfold ofImport at h
  split at h
  · split at h
    · rename_i t cs hName
      obtain rfl := List.mem_singleton.mp h
      cases imp with
      | token u => cases hName
      | branch k ds =>
        have hOther {f : Field} (hf : f ≠ .name) (new : Node) :
            ((Node.branch k ds).setField .name new).field? f = (Node.branch k ds).field? f :=
          congrArg List.head? (filed_replaceFirst hf new ds)
        constructor
        · rw [Import.qualifiedName, Import.qualifiedName, Node.field_setField hName, hName]
          rfl
        · simp only [Import.isSingle, Import.isStatic, Import.isWildcard,
            hOther (f := .staticWord) (by simp), hOther (f := .wildcard) (by simp)]
    · obtain rfl := List.mem_singleton.mp h
      exact ⟨rfl, rfl⟩
  · obtain rfl := List.mem_singleton.mp h
    exact ⟨rfl, rfl⟩

/-- The imports of an attributed unit are those it had before, attributed. -/
theorem exists_import_of_ofUnit (classpath : Classpath) {unit : Node} (h : unit.WellFormed)
    (hUnit : unit.form = .unit) {i : Node}
    (hi : i ∈ (ofUnit classpath unit).value.field .imports) :
    ∃ imp ∈ unit.field .imports, i ∈ (ofImport imp).value := by
  obtain ⟨cs, s, rfl, -, hValue⟩ := exists_of_ofUnit classpath h hUnit
  rw [hValue, Node.field_branch, filed_ofChildren] at hi
  obtain ⟨imp, hImp, hi⟩ := List.mem_flatMap.mp hi
  refine ⟨imp, hImp, ?_⟩
  have hSlot : ⟨.imports, .many, [.importDeclaration]⟩ ∈ NodeKind.unit.slots := by simp [NodeKind.slots]
  obtain ⟨hForms, -⟩ := h.filed_many hSlot imp hImp
  obtain ⟨ds, rfl⟩ := Node.exists_children (k := .importDeclaration) rfl (List.mem_singleton.mp hForms)
  rwa [ofNode] at hi

end Attribution

-- ---------------------------------------------------------------------------
-- Removal
-- ---------------------------------------------------------------------------

namespace Node

/-- The simple name of an import is that of the type it names. -/
theorem Fresh.simpleName_of_import {unit imp : Node} (h : unit.Fresh)
    (hImport : imp ∈ unit.field .imports) :
    Import.simpleName imp = (⟨Import.qualifiedName imp⟩ : TypeName).simple := by
  unfold Import.simpleName Import.qualifiedName TypeName.simple
  cases hName : imp.field? .name with
  | none => rfl
  | some name =>
    refine (Text.lastPart_joinDots fun part hPart => ?_).symm
    obtain ⟨n, hn, hEq⟩ := List.mem_filterMap.mp hPart
    cases n with
    | branch k cs => cases hEq
    | token t =>
      simp only [Option.ite_none_right_eq_some, Option.some.injEq] at hEq
      obtain ⟨hKind, rfl⟩ := hEq
      refine h.plain t ?_ hKind
      have hBelow {n m : Node} {f : Field} (hm : m ∈ n.field f) : m.tokens ⊆ n.tokens := by
        cases n with
        | token t => cases hm
        | branch k cs =>
          rw [tokens, tokensOf_eq]
          exact fun t ht => List.mem_flatMap.mpr ⟨_, mem_of_mem_filed hm, ht⟩
      exact hBelow hImport (hBelow (List.mem_of_head? hName) (hBelow hn (by simp [Node.tokens])))

end Node

namespace Imports

/-- What is known when an import has been removed. -/
theorem exists_of_remove {unit : Node} {t : TypeName} (h : (remove unit t).changed = true) :
    isReferenced unit t = false ∧ ∃ i ∈ unit.field .imports, Import.isSingle i = true ∧
      Import.qualifiedName i = t.text := by
  by_contra hNot
  rw [not_and_or] at hNot
  rw [remove_eq_unchanged (hNot.imp (by simp) fun hNone i hi => ?_)] at h
  · cases h
  · simpa [isCopy] using fun hSingle hName => hNone ⟨i, hi, hSingle, hName⟩

/-- **When an import has been removed from a resolved unit**, every simple name that is spelled like its
type denotes another, and in a statement no name that denotes nothing begins with it. -/
theorem remove_spares_names (classpath : Classpath) {tree : Node} (h : tree.Fresh) {t : TypeName}
    (hRemoved : (remove (Attribution.ofUnit classpath tree).value t).changed = true) :
    let unit := (Attribution.ofUnit classpath tree).value
    (∀ n ∈ unit.bodyNames, n.nameParts = [t.simple] → ∃ u, n.denoted? = some u ∧ u ≠ t) ∧
      ∀ type ∈ unit.field .types, ∀ m ∈ type.walk, m.form = .statement →
        ∀ n ∈ unknownHeads none (m.children.map Prod.snd), n.nameParts.head? ≠ some t.simple := by
  obtain ⟨hReferenced, i, hi, hSingle, hName⟩ := exists_of_remove hRemoved
  constructor
  · intro n hn hParts
    have hNot := List.any_eq_false.mp hReferenced n hn
    rw [hParts] at hNot
    cases hDenoted : n.denoted? with
    | none => simp [hDenoted] at hNot
    | some u =>
      refine ⟨u, rfl, ?_⟩
      simpa [hDenoted] using hNot
  · obtain ⟨imp, hImp, hi⟩ := Attribution.exists_import_of_ofUnit classpath h.wellFormed h.isUnit hi
    obtain ⟨hSame, hSame'⟩ := Attribution.mem_ofImport hi
    have hMeans : (Scope.ofUnit tree classpath).resolveSimple (Import.simpleName imp) ≠ none :=
      Scope.resolveSimple_of_import hImp (hSame' ▸ hSingle)
    rw [h.simpleName_of_import hImp, ← hSame, hName] at hMeans
    intro type hType m hm hStatement n hn hHead
    have hIgnored := Attribution.heads_ofUnit classpath h.wellFormed h.isUnit h.bare h.chained type hType m hm
      hStatement n hn
    obtain ⟨parts, hParts⟩ := List.head?_eq_some_iff.mp hHead
    rw [Scope.Ignores, hParts] at hIgnored
    exact hMeans hIgnored

open Draft in
/-- An import that nothing refers to, for a point stands before the name of its type. -/
def unusedImport : Sample := .ofDraft (node "program" [
  importing ["Layout", "log4j", "apache", "org"],
  classOf "A" none (braced "class_body" [
    fieldOf wholeType "b" (accessOf (word "c" " ") "Layout")]) "\n"]) "\n"

set_option maxRecDepth 100000 in
theorem remove_spares_names_unusedImport : ∃ tree unit, unusedImport.unit? = some tree ∧ tree.Fresh ∧
    (Attribution.ofUnit ⟨defaultStubs⟩ tree).value = unit ∧
    (remove unit ⟨"org.apache.log4j.Layout"⟩).changed = true ∧
    ∀ type ∈ unit.field .types, ∀ m ∈ type.walk, m.form = .statement →
      ∀ n ∈ unknownHeads none (m.children.map Prod.snd), n.nameParts.head? ≠ some "Layout" := by
  have hSome : (unusedImport.unit?.map fun tree =>
      (remove (Attribution.ofUnit ⟨defaultStubs⟩ tree).value ⟨"org.apache.log4j.Layout"⟩).changed) =
      some true := by decide +kernel
  have hSimple : (⟨"org.apache.log4j.Layout"⟩ : TypeName).simple = "Layout" := by decide +kernel
  obtain ⟨tree, hTree, hRemoved⟩ := Option.map_eq_some_iff.mp hSome
  have hFresh := Parsing.fresh_of_sample (by decide +kernel) hTree
  exact ⟨tree, _, hTree, hFresh, rfl, hRemoved,
    hSimple ▸ (remove_spares_names ⟨defaultStubs⟩ hFresh hRemoved).2⟩

end Imports

end SourceMigration
