import SourceMigration.Proofs.Recipe.Commuting

/-!
# SourceMigration — what the removal of an import does

A removal leaves the unit alone, or it takes out the first single-type import of its type and hands
blanks of that import on to what follows it. Static imports and imports on demand, the other imports and
their order, the package and the types stay. Further imports of the same type stay too, so a second
removal does nothing only if there was at most one, or if the type is referred to.

## Results

* `Drops.omits`           — an import that goes hands on blanks and nothing else.
* `isReferenced_of_reimports` — whether a type is referred to does not depend on the imports.
* `removes_first_import`  — all that the removal of an import does to a resolved unit.
-/

namespace SourceMigration

-- ---------------------------------------------------------------------------
-- Blanks
-- ---------------------------------------------------------------------------

namespace Layout

/-- Trivia in which no comment begins are blank. -/
theorem dropBlank_of_not_hasComment {l : String} (h : Separates l) (hNone : Imports.hasComment l = false) :
    Text.dropBlank l = "" := by
  have hAll : ∀ cs : List Char, Trivia false cs →
      ((cs.zip (cs.drop 1)).any fun p => p.1 == '/' && (p.2 == '/' || p.2 == '*')) = false →
        Text.dropBlankChars cs = [] := by
    intro cs hTrivia
    induction hTrivia with
    | nil => exact fun _ => rfl
    | @gap c cs hGap _ ih =>
      intro hPairs
      rw [Text.dropBlankChars, List.dropWhile_cons_of_pos (isBlank_of_isGap hGap)]
      refine ih ?_
      cases cs with
      | nil => rfl
      | cons d cs => exact (Bool.or_eq_false_iff.mp hPairs).2
    | lineComment | blockComment =>
      intro hPairs
      simp at hPairs
  rw [Text.dropBlank, hAll _ h hNone]

end Layout

namespace Text

theorem dropBlank_leadingBlank (l : String) : dropBlank (leadingBlank l) = "" := by
  have hBlank : ∀ c ∈ leadingBlankChars l.toList, isBlank c = true := isBlank_of_mem_leadingBlankChars
  rw [dropBlank, leadingBlank, String.toList_ofList, dropBlankChars,
    List.dropWhile_eq_nil_iff.mpr hBlank]

end Text

namespace Imports

variable {p q : UnitParts} {t : TypeName} {front back : List Node} {imp : Node}

-- ---------------------------------------------------------------------------
-- The imports of one type
-- ---------------------------------------------------------------------------

theorem isCopy_withLeading (t : TypeName) (imp : Node) (l : String) :
    isCopy t (imp.withLeading l) = isCopy t imp := by
  simp only [isCopy, Import.isSingle, Import.isStatic_withLeading, Import.isWildcard_withLeading,
    Import.qualifiedName_withLeading]

-- ---------------------------------------------------------------------------
-- One import less
-- ---------------------------------------------------------------------------

/-- The first import of a type less. Nothing else is another but the blanks that the trivia of the import
behind it begin with, or those of the first type if nothing else stands before that. -/
inductive Omits (t : TypeName) (p : UnitParts) : UnitParts → Prop where
  | before {front back : List Node} {imp next : Node} (l : String)
      (hImports : p.imports = front ++ imp :: next :: back) (hFront : ∀ i ∈ front, isCopy t i = false)
      (hImp : isCopy t imp = true) (hBlank : Text.dropBlank l = Text.dropBlank next.leading) :
      Omits t p { p with imports := front ++ next.withLeading l :: back }
  | last {front : List Node} {imp : Node} (hImports : p.imports = front ++ [imp])
      (hFront : ∀ i ∈ front, isCopy t i = false) (hImp : isCopy t imp = true) :
      Omits t p { p with imports := front }
  | only {imp first : Node} {rest : List Node} (l : String) (hImports : p.imports = [imp])
      (hImp : isCopy t imp = true) (hPackage : p.package = none) (hTypes : p.types = first :: rest)
      (hBlank : Text.dropBlank l = Text.dropBlank first.leading) :
      Omits t p { p with imports := [], types := first.withLeading l :: rest }

theorem Drops.omits (h : Drops imp p front back q) (hp : p.Composed)
    (hImports : p.imports = front ++ imp :: back) (hFront : ∀ i ∈ front, isCopy t i = false)
    (hImp : isCopy t imp = true) : Omits t p q := by
  cases h with
  | closed =>
    cases back with
    | cons next rest =>
      have hSound := hp.sound.imports next (by simp [hImports])
      have hSame := Omits.before (p := p) next.leading hImports hFront hImp rfl
      rwa [(Node.fronted_import hSound.1 hSound.2).withLeading_leading] at hSame
    | nil =>
      rw [List.append_nil]
      exact .last hImports hFront hImp
  | @handed front rest next hNone =>
    -- the import that goes stood before the next one, so nothing but trivia is before it
    have hClear : next.Clear := by
      have hTidy := hp.tidy
      have hSplit : p.nodes = (p.package.toList ++ (front ++ [imp])) ++ next :: (rest ++ p.types) := by
        simp [UnitParts.nodes, hImports]
      rw [hSplit, Tidy.append_iff (by simp)] at hTidy
      exact hTidy.2 next List.mem_cons_self
    refine .before _ hImports hFront hImp ?_
    rw [Layout.dropBlank_of_not_hasComment hClear.leading hNone, Text.dropBlank_leadingBlank]
  | first hPackage hTypes => exact .only _ hImports hImp hPackage hTypes (Text.dropBlank_respaced _ _)

/-- How many imports there are of one type alone. -/
def copies (t : TypeName) (p : UnitParts) : Nat := p.imports.countP (isCopy t)

/-- One import of the type less is one. -/
theorem Drops.copies (h : Drops imp p front back q) (hImports : p.imports = front ++ imp :: back)
    (hImp : isCopy t imp = true) : Imports.copies t p = Imports.copies t q + 1 := by
  have hCount : Imports.copies t p = front.countP (isCopy t) + back.countP (isCopy t) + 1 := by
    simp only [Imports.copies, hImports, List.countP_append, List.countP_cons, hImp, if_true, Nat.add_assoc]
  rw [hCount]
  cases h with
  | closed => simp only [Imports.copies, List.countP_append]
  | handed => simp only [Imports.copies, List.countP_append, List.countP_cons, isCopy_withLeading]
  | first => simp [Imports.copies]

theorem Drops.length (h : Drops imp p front back q) (hImports : p.imports = front ++ imp :: back) :
    p.imports.length = q.imports.length + 1 := by
  cases h with
  | closed | handed => simp [hImports, Nat.add_assoc]
  | first => simp [hImports]

-- ---------------------------------------------------------------------------
-- References
-- ---------------------------------------------------------------------------

/-- Whether a type is referred to does not depend on the imports. -/
theorem isReferenced_of_reimports (h : p.Reimports q) (t : TypeName) :
    isReferenced q.toUnit t = isReferenced p.toUnit t := by
  have hForth {p q : UnitParts} (h : p.Reimports q) (hRef : isReferenced q.toUnit t = true) :
      isReferenced p.toUnit t = true :=
    any_names_of_reimports h (fun m m' hParts hSame => by simp only [hParts, hSame]) hRef
  exact Bool.eq_iff_iff.mpr ⟨hForth h, hForth h.symm⟩

-- ---------------------------------------------------------------------------
-- What a removal achieves
-- ---------------------------------------------------------------------------

/-- All that the removal of the import of a type does to a unit. -/
structure Removed (t : TypeName) (p q : UnitParts) (changed : Bool) : Prop where
  /-- Nothing, or one import less. -/
  shape : changed = false ∧ q = p ∨ changed = true ∧ Omits t p q
  /-- Unless the type is referred to, an import of it has gone if there was one. -/
  left : copies t q = if isReferenced p.toUnit t then copies t p else copies t p - 1
  /-- Further imports can be added and removed as before. -/
  composed : q.Composed
  /-- The first removal is enough if the type is referred to, or there was at most one import of it. -/
  again : (remove q.toUnit t).unit = q.toUnit ↔ isReferenced p.toUnit t = true ∨ copies t p ≤ 1

theorem copies_eq_zero_iff : copies t p = 0 ↔ ∀ i ∈ p.imports, isCopy t i = false := by
  simp [copies, List.countP_eq_zero]

theorem copies_ne_zero_iff : copies t p ≠ 0 ↔ ∃ i ∈ p.imports, isCopy t i = true := by
  simp [copies, List.countP_eq_zero]

/-- A removal does nothing only where there is no import of the type, or the type is referred to. -/
theorem remove_eq_self_iff :
    (remove p.toUnit t).unit = p.toUnit ↔ isReferenced p.toUnit t = true ∨ copies t p = 0 := by
  refine ⟨fun hSelf => ?_, fun h => (remove_of_kept (h.imp_right copies_eq_zero_iff.mp)).1⟩
  by_contra hNot
  obtain ⟨hReferenced, hSome⟩ := not_or.mp hNot
  obtain ⟨front, imp, back, hImports, hFront, hImp⟩ := exists_first_copy (copies_ne_zero_iff.mp hSome)
  rw [(remove_of_first (by simpa using hReferenced) hImports hFront hImp).1] at hSelf
  have hLength := (drops_withoutImport imp front back p).length hImports
  rw [UnitParts.toUnit_inj hSelf] at hLength
  omega

/-- An import that goes leaves a unit composed. -/
theorem composed_remove (hp : p.Composed) (hq : (remove p.toUnit t).unit = q.toUnit) : q.Composed := by
  obtain ⟨r, hr, hSound, hFront⟩ := reimports_remove hp.sound t
  obtain rfl : r = q := UnitParts.toUnit_inj (hr.symm.trans hq)
  refine ⟨hSound, hp.headed.reimports hFront, tidy_remove hp.tidy hq, ?_⟩
  obtain ⟨hPackage, hImports⟩ := List.forall_mem_append.mp hp.closed
  rw [hFront.package, List.forall_mem_append]
  refine ⟨hPackage, ?_⟩
  rcases remove_cases hq with rfl | ⟨front, imp, back, hSplit, -, hDrops⟩
  · exact hImports
  · exact hDrops.imports hSplit (fun n l hn => hn.withLeading l) hImports

/-- **Removing an import from a unit leaves the unit alone or takes the first such import out.** -/
theorem removes_first_import {p : UnitParts} (hp : p.Composed) (t : TypeName) :
    ∃ q : UnitParts, (remove p.toUnit t).unit = q.toUnit ∧ Removed t p q (remove p.toUnit t).changed := by
  by_cases hKept : isReferenced p.toUnit t = true ∨ copies t p = 0
  · obtain ⟨hUnit, hChanged⟩ := remove_of_kept (hKept.imp_right copies_eq_zero_iff.mp)
    refine ⟨p, hUnit, Or.inl ⟨hChanged, rfl⟩, ?_, hp, iff_of_true hUnit (hKept.imp_right (by omega))⟩
    rcases hKept with hReferenced | hNone
    · rw [if_pos hReferenced]
    · simp [hNone]
  · obtain ⟨hReferenced, hSome⟩ := not_or.mp hKept
    rw [Bool.not_eq_true] at hReferenced
    obtain ⟨front, imp, back, hImports, hFront, hImp⟩ := exists_first_copy (copies_ne_zero_iff.mp hSome)
    obtain ⟨hUnit, hChanged⟩ := remove_of_first hReferenced hImports hFront hImp
    have hDrops := drops_withoutImport imp front back p
    have hCopies := hDrops.copies hImports hImp
    have hOmits := hDrops.omits hp hImports hFront hImp
    refine ⟨_, hUnit, Or.inr ⟨hChanged, hOmits⟩, ?_, composed_remove hp hUnit, ?_⟩
    · rw [hReferenced, if_neg (by simp)]
      omega
    · rw [remove_eq_self_iff, isReferenced_of_reimports hDrops.reimports, hReferenced]
      simp only [Bool.false_eq_true, false_or]
      omega

open Draft in
/-- Two imports of a type that nothing refers to. -/
def importedTwice : Sample := .ofDraft (node "program" [
  importing ["B", "a"], importing ["B", "a"] "\n", classOf "A" none (braced "class_body" []) "\n"]) "\n"

set_option maxRecDepth 100000 in
/-- Each of two removals takes one of them. -/
theorem removes_first_import_importedTwice : ∃ p q r : UnitParts,
    importedTwice.resolved? ⟨defaultStubs⟩ = some p.toUnit ∧ p.Composed ∧
      (remove p.toUnit ⟨"a.B"⟩).unit = q.toUnit ∧ q.toUnit.text = "\nimport a.B;\nclass A \x7b \x7d\n" ∧
      Removed ⟨"a.B"⟩ p q true ∧
      (remove q.toUnit ⟨"a.B"⟩).unit = r.toUnit ∧ r.toUnit.text = "\nclass A \x7b \x7d\n" ∧
      Removed ⟨"a.B"⟩ q r true := by
  have hSome : ((importedTwice.resolved? ⟨defaultStubs⟩).map fun unit =>
      let first := remove unit ⟨"a.B"⟩
      let second := remove first.unit ⟨"a.B"⟩
      (first.changed, first.unit.text, second.changed, second.unit.text)) =
      some (true, "\nimport a.B;\nclass A \x7b \x7d\n", true, "\nclass A \x7b \x7d\n") := by
    decide +kernel
  obtain ⟨unit, hUnit, hSome⟩ := Option.map_eq_some_iff.mp hSome
  obtain ⟨p, rfl, hp⟩ := exists_composed_of_sample (by decide +kernel) hUnit
  obtain ⟨q, hq, hFirst⟩ := removes_first_import hp ⟨"a.B"⟩
  obtain ⟨r, hr, hSecond⟩ := removes_first_import hFirst.composed ⟨"a.B"⟩
  simp only [Prod.mk.injEq, hq, hr] at hSome
  obtain ⟨hChanged, hText, hChanged', hText'⟩ := hSome
  rw [hChanged] at hFirst
  rw [hChanged'] at hSecond
  exact ⟨p, q, r, hUnit, hp, hq, hText, hFirst, hr, hText', hSecond⟩

end Imports

end SourceMigration
