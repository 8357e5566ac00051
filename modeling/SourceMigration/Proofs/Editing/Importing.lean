import SourceMigration.Editing.Imports
import SourceMigration.Proofs.Tree.Parts

/-!
# SourceMigration — how imports come and go

An attempt to add an import leaves a unit as it is, or the import comes: before the import that is to
stand behind it, right behind another, alone after the package, or before the first type. An attempt to
remove one leaves the unit as it is, or the import goes: the gap closes, and its blanks may pass to the
next import or to the first type. These are all the cases there are. They are read off the two operations
here and nowhere else; whatever the operations keep is proved case by case.

## Results

* `insertInto_before`, `insertInto_behind`, `insertInto_last` — the three places for a new import.
* `exists_place`                      — every list of imports has a place for a new one.
* `add_of_wanted`, `add_of_unwanted`  — when an import is added, and what the unit is then.
* `remove_of_first`, `remove_of_kept` — when an import is removed, and what the unit is then.
* `exists_add`, `exists_remove`       — the cases of an addition and of a removal.
-/

namespace SourceMigration

namespace UnitParts

theorem unitParts_toUnit (p : UnitParts) : p.toUnit.unitParts = p := by
  obtain ⟨package, imports, types, endMarker⟩ := p
  cases package <;>
    simp [toUnit, Node.unitParts, Node.field?, filed_cons, filed_map]

theorem package_toUnit (p : UnitParts) : p.toUnit.field? .package = p.package :=
  congrArg UnitParts.package p.unitParts_toUnit

theorem imports_toUnit (p : UnitParts) : p.toUnit.field .imports = p.imports :=
  congrArg UnitParts.imports p.unitParts_toUnit

theorem types_toUnit (p : UnitParts) : p.toUnit.field .types = p.types :=
  congrArg UnitParts.types p.unitParts_toUnit

theorem endMarker_toUnit (p : UnitParts) : p.toUnit.field .endMarker = p.endMarker :=
  congrArg UnitParts.endMarker p.unitParts_toUnit

theorem toUnit_inj {p q : UnitParts} (h : p.toUnit = q.toUnit) : p = q := by
  rw [← p.unitParts_toUnit, h, q.unitParts_toUnit]

end UnitParts

namespace Imports

variable {p q : UnitParts} {t : TypeName} {newline : String} {front back imports : List Node}
  {imp next last : Node}

-- ---------------------------------------------------------------------------
-- Places for a new import
-- ---------------------------------------------------------------------------

/-- An import that stands behind a new one. -/
def Later (t : TypeName) (imp : Node) : Prop :=
  Import.isStatic imp = false ∧ t.text < Import.qualifiedName imp

/-- None of some imports stands behind a new one. -/
def Free (t : TypeName) (imports : List Node) : Prop := ∀ i ∈ imports, ¬ Later t i

@[simp] theorem free_nil (t : TypeName) : Free t [] := by simp [Free]

@[simp] theorem free_cons (t : TypeName) (imp : Node) (imports : List Node) :
    Free t (imp :: imports) ↔ ¬ Later t imp ∧ Free t imports := List.forall_mem_cons

@[simp] theorem free_append (t : TypeName) (front back : List Node) :
    Free t (front ++ back) ↔ Free t front ∧ Free t back := List.forall_mem_append

/-- Static imports stand behind none. -/
theorem free_of_static (t : TypeName) (h : ∀ i ∈ imports, Import.isStatic i = true) : Free t imports :=
  fun i hi hLater => by simp [Later, h i hi] at hLater

/-- How an insertion asks whether an import stands behind the new one. -/
theorem later_iff (t : TypeName) (imp : Node) :
    (!Import.isStatic imp && decide (t.text < Import.qualifiedName imp)) = true ↔ Later t imp := by
  simp only [Later, Bool.and_eq_true, Bool.not_eq_true', decide_eq_true_eq]

theorem findIdx_eq_none (h : Free t imports) :
    imports.findIdx? (fun imp =>
      !Import.isStatic imp && decide (t.text < Import.qualifiedName imp)) = none :=
  List.findIdx?_eq_none_iff.mpr fun i hi =>
    eq_false_of_ne_true fun hLater => h i hi ((later_iff t i).mp hLater)

/-- A new import before the first that stands behind it. -/
theorem insertInto_before (newline : String) (back : List Node) (hFront : Free t front)
    (hNext : Later t next) :
    insertInto newline t (front ++ next :: back) =
      front ++ Node.importOf t next.leading :: next.withLeading newline :: back := by
  have hFind : (front ++ next :: back).findIdx? (fun imp =>
      !Import.isStatic imp && decide (t.text < Import.qualifiedName imp)) = some front.length := by
    rw [List.findIdx?_append, findIdx_eq_none hFront, List.findIdx?_cons,
      if_pos ((later_iff t next).mpr hNext)]
    simp
  unfold insertInto
  simp only [hFind, List.drop_left, List.take_left, List.append_assoc, List.cons_append, List.nil_append]

/-- A new import behind the last that is not static, where none stands behind it. -/
theorem insertInto_behind (newline : String) (hNone : Free t (front ++ last :: back))
    (hLast : Import.isStatic last = false) (hBack : ∀ i ∈ back, Import.isStatic i = true) :
    insertInto newline t (front ++ last :: back) =
      front ++ last :: Node.importOf t newline :: back := by
  have hFind : (front ++ last :: back).reverse.findIdx? (!Import.isStatic ·) = some back.length := by
    have hStatic : back.reverse.findIdx? (!Import.isStatic ·) = none :=
      List.findIdx?_eq_none_iff.mpr fun i hi => by simp [hBack i (List.mem_reverse.mp hi)]
    rw [List.reverse_append, List.reverse_cons, List.append_assoc, List.findIdx?_append, hStatic,
      List.singleton_append, List.findIdx?_cons, if_pos (by simp [hLast])]
    simp
  have hIndex : (front ++ last :: back).length - back.length = (front ++ [last]).length := by
    simp only [List.length_append, List.length_cons, List.length_nil]
    omega
  unfold insertInto
  simp only [findIdx_eq_none hNone, hFind, hIndex]
  rw [List.append_cons front last back, List.take_left, List.drop_left]
  simp

/-- A new import behind none but static ones. -/
theorem insertInto_last (newline : String) (h : ∀ i ∈ imports, Import.isStatic i = true) :
    insertInto newline t imports = imports ++ [Node.importOf t newline] := by
  have hStatic : imports.reverse.findIdx? (!Import.isStatic ·) = none :=
    List.findIdx?_eq_none_iff.mpr fun i hi => by simp [h i (List.mem_reverse.mp hi)]
  unfold insertInto
  simp only [findIdx_eq_none (free_of_static t h), hStatic]

/-- The places for a new import in a list. -/
inductive Place (t : TypeName) : List Node → Prop where
  | before {front back : List Node} {next : Node} (hFront : Free t front)
      (hNext : Later t next) : Place t (front ++ next :: back)
  | behind {front back : List Node} {last : Node} (hNone : Free t (front ++ last :: back))
      (hLast : Import.isStatic last = false) (hBack : ∀ i ∈ back, Import.isStatic i = true) :
      Place t (front ++ last :: back)
  | last {imports : List Node} (h : ∀ i ∈ imports, Import.isStatic i = true) : Place t imports

/-- No import stands behind a new one, or a first one does. -/
theorem exists_first_later (t : TypeName) (imports : List Node) : Free t imports ∨
    ∃ front next back, imports = front ++ next :: back ∧ Free t front ∧ Later t next := by
  cases hFind : imports.find? (fun i =>
      !Import.isStatic i && decide (t.text < Import.qualifiedName i)) with
  | none =>
    exact Or.inl fun i hi hLater =>
      List.find?_eq_none.mp hFind i hi ((later_iff t i).mpr hLater)
  | some next =>
    obtain ⟨hNext, front, back, hSplit, hFront⟩ := List.find?_eq_some_iff_append.mp hFind
    refine Or.inr ⟨front, next, back, hSplit, fun i hi hLater => ?_, (later_iff t next).mp hNext⟩
    have hNot := hFront i hi
    rw [(later_iff t i).mpr hLater] at hNot
    exact Bool.noConfusion hNot

/-- Every list of imports has a place for a new one. -/
theorem exists_place (t : TypeName) (imports : List Node) : Place t imports := by
  rcases exists_first_later t imports with hNone | ⟨front, next, back, rfl, hFront, hNext⟩
  · cases hFind : imports.reverse.find? (!Import.isStatic ·) with
    | none =>
      refine .last fun i hi => ?_
      simpa using List.find?_eq_none.mp hFind i (List.mem_reverse.mpr hi)
    | some last =>
      obtain ⟨hLast, back, front, hSplit, hBack⟩ := List.find?_eq_some_iff_append.mp hFind
      obtain rfl : imports = front.reverse ++ last :: back.reverse := by
        rw [← List.reverse_inj, hSplit]
        simp
      exact .behind hNone (by simpa using hLast) fun i hi => by
        simpa using hBack i (List.mem_reverse.mp hi)
  · exact .before hFront hNext

-- ---------------------------------------------------------------------------
-- Adding an import
-- ---------------------------------------------------------------------------

/-- Whether some import covers a type. -/
def Covers (imports : List Node) (t : TypeName) : Prop := ∃ i ∈ imports, cover? t i ≠ none

/-- An import finds a use: a simple name denotes the type, and nothing else serves that name. -/
structure Wanted (p : UnitParts) (t : TypeName) : Prop where
  foreign : ¬ (t.package = languagePackage ∨ t.package = Unit.packageName p.toUnit)
  uncovered : ¬ Covers p.imports t
  denoted : isDenoted p.toUnit t = true

/-- Where a simple name denotes a type, there are types. -/
theorem types_of_isDenoted {t : TypeName} (h : isDenoted p.toUnit t = true) : p.types ≠ [] := by
  intro hNil
  have hNames : p.toUnit.bodyNames = [] := by
    rw [Node.bodyNames, p.types_toUnit, hNil]
    rfl
  simp [isDenoted, hNames] at h

/-- The parts of a unit that has types, with one import more. -/
def withImport (newline : String) (t : TypeName) (p : UnitParts) : UnitParts :=
  match p.imports, p.package, p.types with
  | [], none, first :: rest =>
    { p with
      imports := [Node.importOf t first.leading]
      types := first.withLeading (newline ++ newline) :: rest }
  | [], _, _ => { p with imports := [Node.importOf t (newline ++ newline)] }
  | _ :: _, _, _ => { p with imports := insertInto newline t p.imports }

theorem findSome_cover (h : ¬ Covers p.imports t) : p.imports.findSome? (cover? t) = none :=
  List.findSome?_eq_none_iff.mpr fun i hi => by_contra fun hCover => h ⟨i, hi, hCover⟩

/-- What is wanted is added. -/
theorem add_of_wanted (h : Wanted p t) :
    (add p.toUnit t).unit = (withImport (lineEnd p.toUnit.text) t p).toUnit ∧
      (add p.toUnit t).changed = true := by
  unfold add withImport
  rw [if_neg h.foreign]
  simp only [UnitParts.unitParts_toUnit, findSome_cover h.uncovered, h.denoted, Bool.not_true,
    Bool.false_eq_true, if_false]
  cases hImports : p.imports with
  | cons first rest => exact ⟨rfl, rfl⟩
  | nil =>
    cases hPackage : p.package with
    | some package => exact ⟨rfl, rfl⟩
    | none =>
      cases hTypes : p.types with
      | cons first rest => exact ⟨rfl, rfl⟩
      | nil => exact absurd hTypes (types_of_isDenoted h.denoted)

/-- What is not wanted leaves the unit as it is. -/
theorem add_of_unwanted (h : ¬ Wanted p t) :
    (add p.toUnit t).unit = p.toUnit ∧ (add p.toUnit t).changed = false := by
  unfold add
  split
  · exact ⟨rfl, rfl⟩
  · rename_i hForeign
    simp only [UnitParts.unitParts_toUnit]
    split
    · exact ⟨rfl, rfl⟩
    · exact ⟨rfl, rfl⟩
    · rename_i hCover
      split
      · exact ⟨rfl, rfl⟩
      · rename_i hDenoted
        refine absurd ⟨hForeign, ?_, by simpa using hDenoted⟩ h
        rintro ⟨i, hi, hSome⟩
        exact hSome (List.findSome?_eq_none_iff.mp hCover i hi)

/-- An attempt that changes nothing gives the unit back. -/
theorem unit_of_add {unit : Node} (h : (add unit t).changed = false) : (add unit t).unit = unit := by
  unfold add at h ⊢
  split
  · rfl
  · rename_i hOwn
    rw [if_neg hOwn] at h
    simp only at h ⊢
    split at h <;> try rfl
    split at h
    · rename_i hUnused
      rw [if_pos hUnused]
      rfl
    · split at h <;> cases h

/-- How a new import comes into a unit. It takes over the trivia of the import behind it, or of the first
type if nothing stands before that; else it begins on a line of its own. -/
inductive Adds (newline : String) (t : TypeName) (p : UnitParts) : UnitParts → Prop where
  | before {front back : List Node} {next : Node} (hImports : p.imports = front ++ next :: back) :
      Adds newline t p { p with
        imports := front ++ Node.importOf t next.leading :: next.withLeading newline :: back }
  | behind {front back : List Node} {last : Node} (hImports : p.imports = front ++ last :: back) :
      Adds newline t p { p with imports := front ++ last :: Node.importOf t newline :: back }
  | alone (hImports : p.imports = []) (hPackage : p.package ≠ none) :
      Adds newline t p { p with imports := [Node.importOf t (newline ++ newline)] }
  | first {first : Node} {rest : List Node} (hImports : p.imports = []) (hPackage : p.package = none)
      (hTypes : p.types = first :: rest) :
      Adds newline t p { p with
        imports := [Node.importOf t first.leading]
        types := first.withLeading (newline ++ newline) :: rest }

theorem adds_withImport (newline : String) (t : TypeName) (hTypes : p.types ≠ []) :
    Adds newline t p (withImport newline t p) := by
  unfold withImport
  split
  · rename_i hImports hPackage hFirst
    exact .first hImports hPackage hFirst
  · rename_i hImports hNotFirst
    refine .alone hImports fun hPackage => ?_
    obtain ⟨first, rest, hFirst⟩ := List.exists_cons_of_ne_nil hTypes
    exact hNotFirst first rest hPackage hFirst
  · rename_i hCons
    have hPlace := exists_place t p.imports
    generalize hImports : p.imports = imports at hPlace hCons
    cases hPlace with
    | before hFront hNext =>
      rw [insertInto_before _ _ hFront hNext]
      exact .before hImports
    | behind hNone hLast hBack =>
      rw [insertInto_behind _ hNone hLast hBack]
      exact .behind hImports
    | last hStatic =>
      rw [insertInto_last _ hStatic]
      have hSome : imports ≠ [] := hCons ▸ List.cons_ne_nil _ _
      rw [← List.dropLast_append_getLast hSome] at hImports ⊢
      rw [List.append_assoc]
      exact .behind hImports

/-- An attempt to add an import leaves the unit as it is, or the import comes. -/
theorem exists_add (p : UnitParts) (t : TypeName) :
    ∃ q : UnitParts, (add p.toUnit t).unit = q.toUnit ∧
      (q = p ∨ Adds (lineEnd p.toUnit.text) t p q) := by
  by_cases hWanted : Wanted p t
  · have hAdds := adds_withImport (lineEnd p.toUnit.text) t (types_of_isDenoted hWanted.denoted)
    exact ⟨_, (add_of_wanted hWanted).1, Or.inr hAdds⟩
  · exact ⟨p, (add_of_unwanted hWanted).1, Or.inl rfl⟩

theorem add_cases (hq : (add p.toUnit t).unit = q.toUnit) :
    q = p ∨ Adds (lineEnd p.toUnit.text) t p q := by
  obtain ⟨r, hr, hCases⟩ := exists_add p t
  obtain rfl : r = q := UnitParts.toUnit_inj (hr.symm.trans hq)
  exact hCases

-- ---------------------------------------------------------------------------
-- Removing an import
-- ---------------------------------------------------------------------------

/-- Whether an import is of one type alone, and of a given one. -/
def isCopy (t : TypeName) (imp : Node) : Bool :=
  Import.isSingle imp && Import.qualifiedName imp = t.text

/-- The parts of a unit without an import, when it stands between others. -/
def withoutImport (imp : Node) (front back : List Node) (p : UnitParts) : UnitParts :=
  let spacing := Text.leadingBlank imp.leading
  match back, front, p.package, p.types with
  | next :: rest, _, _, _ =>
    let next :=
      if !hasComment next.leading && lineFeeds next.leading < lineFeeds spacing then
        next.withLeading spacing
      else next
    { p with imports := front ++ next :: rest }
  | [], [], none, first :: rest =>
    let first := first.withLeading (spacing ++ Text.dropBlank first.leading)
    { p with imports := [], types := first :: rest }
  | [], _, _, _ => { p with imports := front }

/-- What is left when the first import of a type is removed. -/
theorem remove_of_first (hReferenced : isReferenced p.toUnit t = false)
    (hImports : p.imports = front ++ imp :: back) (hFront : ∀ i ∈ front, isCopy t i = false)
    (hImp : isCopy t imp = true) :
    (remove p.toUnit t).unit = (withoutImport imp front back p).toUnit ∧
      (remove p.toUnit t).changed = true := by
  have hFind : (front ++ imp :: back).findIdx? (fun i =>
      Import.isSingle i && Import.qualifiedName i = t.text) = some front.length := by
    have hCopy : (front ++ imp :: back).findIdx? (isCopy t) = some front.length := by
      rw [List.findIdx?_append, List.findIdx?_eq_none_iff.mpr hFront, List.findIdx?_cons, if_pos hImp]
      simp
    exact hCopy
  have hDrop : (front ++ imp :: back).drop (front.length + 1) = back := by
    rw [List.append_cons]
    exact List.drop_left' (by simp)
  unfold remove withoutImport
  simp only [UnitParts.unitParts_toUnit, hImports, hFind, hReferenced, hDrop, List.take_left,
    Bool.false_eq_true, if_false]
  rw [List.getElem?_append_right (Nat.le_refl _), Nat.sub_self, List.getElem?_cons_zero, Option.map_some,
    Option.getD_some]
  cases back with
  | cons next rest => exact ⟨rfl, rfl⟩
  | nil =>
    cases front with
    | cons first front => exact ⟨rfl, rfl⟩
    | nil =>
      cases p.package with
      | some package => exact ⟨rfl, rfl⟩
      | none => cases p.types <;> exact ⟨rfl, rfl⟩

/-- Where there is no import of the type, or the type is referred to, nothing is removed. -/
theorem remove_eq_unchanged {unit : Node}
    (h : isReferenced unit t = true ∨ ∀ i ∈ unit.field .imports, isCopy t i = false) :
    remove unit t = unchanged unit := by
  unfold remove
  simp only
  split
  · rfl
  · rename_i k hFind
    obtain ⟨hLength, hCopy, -⟩ := List.findIdx?_eq_some_iff_getElem.mp hFind
    have hSome : isCopy t unit.unitParts.imports[k] = true := hCopy
    rcases h with hReferenced | hNone
    · rw [if_pos hReferenced]
    · rw [hNone _ (List.getElem_mem hLength)] at hSome
      cases hSome

theorem remove_of_kept (h : isReferenced p.toUnit t = true ∨ ∀ i ∈ p.imports, isCopy t i = false) :
    (remove p.toUnit t).unit = p.toUnit ∧ (remove p.toUnit t).changed = false := by
  rw [← p.imports_toUnit] at h
  rw [remove_eq_unchanged h]
  exact ⟨rfl, rfl⟩

theorem unit_of_remove {unit : Node} (h : (remove unit t).changed = false) : (remove unit t).unit = unit := by
  unfold remove at h ⊢
  simp only at h ⊢
  split at h
  · rfl
  · split at h
    · rename_i hUsed
      rw [if_pos hUsed]
      rfl
    · split at h <;> cases h

/-- How an import goes that stands between others. -/
inductive Drops (imp : Node) (p : UnitParts) : List Node → List Node → UnitParts → Prop where
  /-- The gap closes. -/
  | closed (front back : List Node) : Drops imp p front back { p with imports := front ++ back }
  /-- The next import begins with the blanks of the one that goes. -/
  | handed (front back : List Node) {next : Node} (hNone : hasComment next.leading = false) :
      Drops imp p front (next :: back) { p with
        imports := front ++ next.withLeading (Text.leadingBlank imp.leading) :: back }
  /-- The first type does, for nothing is left before it. -/
  | first {first : Node} {rest : List Node} (hPackage : p.package = none) (hTypes : p.types = first :: rest) :
      Drops imp p [] [] { p with
        imports := []
        types := first.withLeading (Text.leadingBlank imp.leading ++ Text.dropBlank first.leading) :: rest }

theorem drops_withoutImport (imp : Node) (front back : List Node) (p : UnitParts) :
    Drops imp p front back (withoutImport imp front back p) := by
  cases back with
  | cons next rest =>
    unfold withoutImport
    simp only
    split
    · rename_i hPlain
      obtain ⟨hNone, -⟩ : hasComment next.leading = false ∧ _ := by simpa using hPlain
      exact .handed front rest hNone
    · exact .closed front (next :: rest)
  | nil =>
    have hClosed : Drops imp p front [] { p with imports := front ++ [] } := .closed front []
    rw [List.append_nil] at hClosed
    cases front with
    | cons first front => exact hClosed
    | nil =>
      obtain ⟨package, imports, types, endMarker⟩ := p
      cases package with
      | some package => exact hClosed
      | none =>
        cases types with
        | nil => exact hClosed
        | cons first rest => exact .first rfl rfl

theorem exists_first_copy (h : ∃ i ∈ p.imports, isCopy t i = true) :
    ∃ front imp back, p.imports = front ++ imp :: back ∧ (∀ i ∈ front, isCopy t i = false) ∧
      isCopy t imp = true := by
  obtain ⟨imp, hFind⟩ := Option.isSome_iff_exists.mp (List.find?_isSome.mpr h)
  obtain ⟨hImp, front, back, hSplit, hFront⟩ := List.find?_eq_some_iff_append.mp hFind
  exact ⟨front, imp, back, hSplit, fun i hi => by simpa using hFront i hi, hImp⟩

/-- An attempt to remove an import leaves the unit as it is, or the first import of the type goes. -/
theorem exists_remove (p : UnitParts) (t : TypeName) :
    ∃ q : UnitParts, (remove p.toUnit t).unit = q.toUnit ∧
      (q = p ∨ ∃ front imp back, p.imports = front ++ imp :: back ∧ isCopy t imp = true ∧
        Drops imp p front back q) := by
  by_cases hKept : isReferenced p.toUnit t = true ∨ ∀ i ∈ p.imports, isCopy t i = false
  · exact ⟨p, (remove_of_kept hKept).1, Or.inl rfl⟩
  · obtain ⟨hReferenced, hSome⟩ := not_or.mp hKept
    obtain ⟨front, imp, back, hImports, hFront, hImp⟩ := exists_first_copy (by simpa using hSome)
    exact ⟨_, (remove_of_first (by simpa using hReferenced) hImports hFront hImp).1,
      Or.inr ⟨front, imp, back, hImports, hImp, drops_withoutImport imp front back p⟩⟩

theorem remove_cases (hq : (remove p.toUnit t).unit = q.toUnit) :
    q = p ∨ ∃ front imp back, p.imports = front ++ imp :: back ∧ isCopy t imp = true ∧
      Drops imp p front back q := by
  obtain ⟨r, hr, hCases⟩ := exists_remove p t
  obtain rfl : r = q := UnitParts.toUnit_inj (hr.symm.trans hq)
  exact hCases

end Imports

end SourceMigration
