import SourceMigration.Proofs.Recipe.Addition
import SourceMigration.Proofs.Recipe.LineEnds

/-!
# SourceMigration — the order in which imports are added

Two imports of types with different simple names can be added in either order. Of two new imports the
lesser stands before the greater wherever both come to stand, and the one that is added later takes over
the trivia that the other one took over before. Neither makes the other superfluous, and the line end
that the text uses is the same after an addition, so both orders write the same signs.

## Results

* `insertInto_comm`     — two imports can be put into a list in either order.
* `Adds.wanted_iff`     — whether one import is wanted does not depend on whether the other is there.
* `Adds.lineEnd`        — an addition leaves the line end that the text uses.
* `adds_commute`        — two imports can be added to a resolved unit in either order.
-/

namespace SourceMigration

namespace Imports

variable {p : UnitParts} {s t : TypeName} {newline : String} {imports : List Node}

-- ---------------------------------------------------------------------------
-- Two new imports in a list
-- ---------------------------------------------------------------------------

/-- What stands behind the greater of two imports stands behind the lesser. -/
theorem Later.of_lt {imp : Node} (h : Later t imp) (hLess : s.text < t.text) : Later s imp :=
  ⟨h.1, String.lt_trans hLess h.2⟩

/-- A new import is not put behind one that is greater. -/
theorem not_later_importOf (hLess : s.text < t.text) (l : String) : ¬ Later t (Node.importOf s l) := by
  simpa using String.lt_asymm hLess

/-- Both imports come to stand before others. -/
theorem insertInto_comm_before (hLess : s.text < t.text) {front back : List Node} {next : Node}
    (hFront : Free t front) (hNext : Later t next) (hFronted : next.Fronted) :
    insertInto newline t (insertInto newline s (front ++ next :: back)) =
      insertInto newline s (insertInto newline t (front ++ next :: back)) := by
  have hNew := not_later_importOf hLess
  rw [insertInto_before _ _ hFront hNext]
  rcases exists_first_later s front with hNone | ⟨front, first, middle, rfl, hBefore, hFirst⟩
  · -- the same import stands behind both
    rw [insertInto_before _ _ hNone (hNext.of_lt hLess),
      insertInto_before _ _ hNone ((later_importOf t s _).mpr hLess), List.append_cons,
      insertInto_before _ _ (by simp [hFront, hNew]) (by simpa using hNext)]
    simp [hFronted]
  · -- the lesser import comes to stand further in front
    simp only [free_append, free_cons] at hFront
    simp only [List.append_assoc, List.cons_append]
    rw [insertInto_before _ _ hBefore hFirst, insertInto_before _ _ hBefore hFirst]
    have hFree : Free t
        (front ++ Node.importOf s first.leading :: first.withLeading newline :: middle) := by
      simp [hFront, hNew]
    simpa using insertInto_before newline back hFree hNext

/-- The greater import comes to stand behind all others that are not static. -/
theorem insertInto_comm_behind (hLess : s.text < t.text) {front back : List Node} {last : Node}
    (hNone : Free t (front ++ last :: back)) (hLast : Import.isStatic last = false)
    (hBack : ∀ i ∈ back, Import.isStatic i = true) :
    insertInto newline t (insertInto newline s (front ++ last :: back)) =
      insertInto newline s (insertInto newline t (front ++ last :: back)) := by
  have hNew := not_later_importOf hLess
  have hStatic := free_of_static s hBack
  rw [insertInto_behind newline hNone hLast hBack]
  simp only [free_append, free_cons] at hNone
  rcases exists_first_later s front with hFront | ⟨front, first, middle, rfl, hBefore, hFirst⟩
  · by_cases hMore : Later s last
    · -- the lesser import comes to stand right before the last that is not static
      rw [insertInto_before _ _ hFront hMore, insertInto_before _ _ hFront hMore, List.append_cons,
        insertInto_behind _ (by simp [hNone, hNew]) (by simp [Import.isStatic_withLeading, hLast]) hBack]
      simp
    · -- both imports come to stand behind all others
      have hLesser := insertInto_behind newline
        (by simp [hFront, hMore, hStatic] : Free s (front ++ last :: back)) hLast hBack
      rw [hLesser, List.append_cons, insertInto_behind _ (by simp [hNone, hNew]) (by simp) hBack,
        List.append_cons front last (Node.importOf t newline :: back),
        insertInto_before _ _ (by simp [hFront, hMore]) ((later_importOf t s _).mpr hLess)]
      simp
  · -- the lesser import comes to stand further in front
    simp only [free_append, free_cons] at hNone
    simp only [List.append_assoc, List.cons_append]
    rw [insertInto_before _ _ hBefore hFirst, insertInto_before _ _ hBefore hFirst]
    have hFree : Free t (front ++ Node.importOf s first.leading :: first.withLeading newline :: middle ++
        last :: back) := by
      simp [hNone, hNew]
    simpa using insertInto_behind newline hFree hLast hBack

/-- Two imports can be put into a list in either order, the lesser first or last. -/
theorem insertInto_comm_of_lt (hLess : s.text < t.text) (hFronted : ∀ n ∈ imports, n.Fronted) :
    insertInto newline t (insertInto newline s imports) =
      insertInto newline s (insertInto newline t imports) := by
  cases exists_place t imports with
  | before hFront hNext => exact insertInto_comm_before hLess hFront hNext (hFronted _ (by simp))
  | behind hNone hLast hBack => exact insertInto_comm_behind hLess hNone hLast hBack
  | last h =>
    have hNew := not_later_importOf hLess
    rw [insertInto_last _ h, insertInto_last _ h,
      insertInto_before _ _ (free_of_static s h) ((later_importOf t s _).mpr hLess),
      insertInto_behind _ (by simp [free_of_static t h, hNew]) (by simp) (by simp)]
    simp

theorem insertInto_comm (hOther : s.text ≠ t.text) (hFronted : ∀ n ∈ imports, n.Fronted) :
    insertInto newline t (insertInto newline s imports) =
      insertInto newline s (insertInto newline t imports) := by
  by_cases hLess : s.text < t.text
  · exact insertInto_comm_of_lt hLess hFronted
  · by_cases hMore : t.text < s.text
    · exact (insertInto_comm_of_lt hMore hFronted).symm
    · exact absurd (String.le_antisymm (String.not_lt.mp hMore) (String.not_lt.mp hLess)) hOther

-- ---------------------------------------------------------------------------
-- Two new imports in a unit
-- ---------------------------------------------------------------------------

/-- A second import next to a new one. -/
theorem insertInto_singleton_comm (hOther : s.text ≠ t.text) (l : String) :
    insertInto newline t [Node.importOf s l] = insertInto newline s [Node.importOf t l] := by
  have hFirst {s t : TypeName} (hLess : s.text < t.text) :
      insertInto newline t [Node.importOf s l] = insertInto newline s [Node.importOf t l] := by
    have hFree : Free t ([] ++ [Node.importOf s l]) := by simp [not_later_importOf hLess]
    have hBehind := insertInto_behind newline hFree rfl (by simp)
    have hBefore := insertInto_before newline [] (free_nil s) ((later_importOf t s l).mpr hLess)
    simp only [List.nil_append] at hBehind hBefore
    rw [hBehind, hBefore]
    simp
  by_cases hLess : s.text < t.text
  · exact hFirst hLess
  · by_cases hMore : t.text < s.text
    · exact (hFirst hMore).symm
    · exact absurd (String.le_antisymm (String.not_lt.mp hMore) (String.not_lt.mp hLess)) hOther

theorem withImport_of_imports (newline : String) (t : TypeName) (h : p.imports ≠ []) :
    withImport newline t p = { p with imports := insertInto newline t p.imports } := by
  unfold withImport
  split
  · rename_i hNil _ _
    exact absurd hNil h
  · rename_i hNil _
    exact absurd hNil h
  · rfl

/-- Two imports can be put into a unit in either order. -/
theorem withImport_comm (hOther : s.text ≠ t.text) (hTypes : p.types ≠ [])
    (hFronted : ∀ n ∈ p.imports, n.Fronted) :
    withImport newline t (withImport newline s p) = withImport newline s (withImport newline t p) := by
  have hSome {u : TypeName} : (withImport newline u p).imports ≠ [] := by
    obtain ⟨l, hl⟩ := (adds_withImport newline u hTypes).exists_mem
    exact List.ne_nil_of_mem hl
  rw [withImport_of_imports newline t hSome, withImport_of_imports newline s hSome]
  unfold withImport
  split
  · simp only [insertInto_singleton_comm hOther]
  · simp only [insertInto_singleton_comm hOther]
  · simp only [insertInto_comm hOther hFronted]

end Imports

theorem Refronts.symm {ns ms : List Node} (h : Refronts ns ms) : Refronts ms ns := by
  obtain ⟨l, rfl⟩ := h
  cases ns with
  | nil => exact .refl []
  | cons n ns =>
    obtain ⟨l', hSelf⟩ := n.exists_withLeading_eq_self
    exact ⟨l', by simp [hSelf]⟩

theorem UnitParts.Reimports.symm {p q : UnitParts} (h : p.Reimports q) : q.Reimports p :=
  ⟨h.package.symm, h.types.symm, fun hPackage => (h.kept (h.package ▸ hPackage)).symm, h.endMarker.symm⟩

namespace Imports

variable {p q : UnitParts} {s t : TypeName} {newline : String}

/-- The import of a type covers no type of another simple name. -/
theorem Inserts.covers_iff (h : Inserts s p q) (hSimple : s.simple ≠ t.simple) :
    Covers q.imports t ↔ Covers p.imports t := by
  have hNew := cover_other hSimple
  cases h with
  | before l l' hImports =>
    simp [Covers, hImports, cover_withLeading, hNew, or_and_right, exists_or]
  | among l hImports => simp [Covers, hImports, hNew, or_and_right, exists_or]
  | first l l' hPackage hImports hTypes => simp [Covers, hImports, hNew]

/-- Whether an import is wanted does not depend on whether one of another simple name is there. -/
theorem Adds.wanted_iff (h : Adds newline s p q) (hSimple : s.simple ≠ t.simple) :
    Wanted q t ↔ Wanted p t := by
  have hPackage := packageName_of_reimports h.reimports
  have hCovers := h.inserts.covers_iff hSimple
  constructor
  · rintro ⟨hForeign, hUncovered, hDenoted⟩
    exact ⟨hPackage ▸ hForeign, hCovers.not.mp hUncovered, isDenoted_of_reimports h.reimports hDenoted⟩
  · rintro ⟨hForeign, hUncovered, hDenoted⟩
    exact ⟨hPackage.symm ▸ hForeign, hCovers.not.mpr hUncovered,
      isDenoted_of_reimports h.reimports.symm hDenoted⟩

-- ---------------------------------------------------------------------------
-- The line end of a unit with a new import
-- ---------------------------------------------------------------------------

theorem toList_toUnit (p : UnitParts) : p.toUnit.text.toList =
    (p.package.toList ++ p.imports).flatMap Node.chars ++ (p.types ++ p.endMarker).flatMap Node.chars := by
  rw [Node.toList_text, UnitParts.toUnit, Node.chars_branch]
  simp [List.flatMap_map]

/-- Declarations that end with semicolons do so one after the other. -/
theorem getLast_chars_flatMap {ns : List Node} (hSome : ns ≠ [])
    (h : ∀ n ∈ ns, n.chars.getLast? = some ';') : (ns.flatMap Node.chars).getLast? = some ';' := by
  rw [← List.dropLast_append_getLast hSome, List.flatMap_append, List.flatMap_singleton,
    List.getLast?_append, h _ (List.getLast_mem hSome), Option.some_or]

/-- The last sign of the package and of each import is a semicolon. -/
theorem getLast_chars_opening (hp : p.Composed) :
    ∀ n ∈ p.package.toList ++ p.imports, n.chars.getLast? = some ';' := by
  intro n hn
  have hClosed := hp.closed n hn
  rcases List.mem_append.mp hn with hn | hn
  · obtain ⟨hForm, hFine, -⟩ := hp.sound.package n (Option.mem_toList.mp hn)
    exact Node.getLast_chars (by simp [openingForms, hForm]) hFine hClosed
  · obtain ⟨hForm, hFine⟩ := hp.sound.imports n hn
    exact Node.getLast_chars (by simp [openingForms, hForm]) hFine hClosed

/-- An import is written before a node that begins with a token. -/
theorem exists_chars_before {next : Node} (hNext : next.Fronted) (newline : String) :
    ∃ more, next.chars = next.leading.toList ++ more ∧
      (next.withLeading newline).chars = newline.toList ++ more := by
  obtain ⟨more, hMore⟩ := hNext.exists_chars
  refine ⟨more, ?_, hMore newline⟩
  rw [← hMore, hNext.withLeading_leading]

/-- An import that comes with line ends of the kind that the text uses leaves that kind. -/
theorem Adds.lineEnd_of_ends (h : Adds newline t p q) (hp : p.Composed) (ht : '\n' ∉ t.text.toList)
    (hOne : Ends p.toUnit.text newline.toList) (hTwo : Ends p.toUnit.text (newline ++ newline).toList) :
    lineEnd q.toUnit.text = lineEnd p.toUnit.text := by
  obtain ⟨w, hWord, hNew⟩ := Node.exists_chars_importOf ht
  have hEnd := getLast_chars_opening hp
  have hText := toList_toUnit p
  cases h with
  | @before front back next hImports =>
    have hSound := hp.sound.imports next (by simp [hImports])
    obtain ⟨more, hSelf, hMore⟩ :=
      exists_chars_before (Node.fronted_import hSound.1 hSound.2) newline
    refine lineEnd_of_ends
      ((p.package.toList ++ front).flatMap Node.chars ++ next.leading.toList)
      (more ++ (back ++ p.types ++ p.endMarker).flatMap Node.chars) hWord hOne ?_ ?_
    · simp [hText, hImports, hSelf]
    · rw [toList_toUnit]
      simp [hMore, hNew]
  | @behind front back last hImports =>
    rw [hImports] at hEnd
    have hBefore : ∀ n ∈ p.package.toList ++ (front ++ [last]), n.chars.getLast? = some ';' :=
      fun n hn => hEnd n (by simp at hn ⊢; tauto)
    refine lineEnd_of_starts
      ((p.package.toList ++ (front ++ [last])).flatMap Node.chars)
      ((back ++ p.types ++ p.endMarker).flatMap Node.chars) hWord hOne
      (getLast_chars_flatMap (by simp) hBefore) ?_ ?_
    · simp [hText, hImports]
    · rw [toList_toUnit]
      simp [hNew]
  | alone hImports hPackage =>
    have hSome : p.package.toList ≠ [] := by simpa [Option.toList_eq_nil_iff] using hPackage
    rw [hImports, List.append_nil] at hEnd
    refine lineEnd_of_starts (p.package.toList.flatMap Node.chars)
      ((p.types ++ p.endMarker).flatMap Node.chars) hWord hTwo (getLast_chars_flatMap hSome hEnd) ?_ ?_
    · simp [hText, hImports]
    · rw [toList_toUnit]
      simp [hNew]
  | @first first rest hImports hPackage hTypes =>
    obtain ⟨more, hSelf, hMore⟩ :=
      exists_chars_before (hp.headed first (by simp [hTypes])) (newline ++ newline)
    refine lineEnd_of_ends first.leading.toList (more ++ (rest ++ p.endMarker).flatMap Node.chars)
      hWord hTwo ?_ ?_
    · simp [hText, hImports, hPackage, hTypes, hSelf]
    · rw [toList_toUnit]
      simp [hPackage, hMore, hNew]

/-- An addition leaves the line end that the text uses. -/
theorem Adds.lineEnd (h : Adds (Imports.lineEnd p.toUnit.text) t p q) (hp : p.Composed)
    (ht : '\n' ∉ t.text.toList) : Imports.lineEnd q.toUnit.text = Imports.lineEnd p.toUnit.text :=
  h.lineEnd_of_ends hp ht (Or.inl rfl) (Or.inr rfl)

/-- **Two imports of types with different simple names can be added to a unit in either order.** -/
theorem adds_commute {p : UnitParts} (hp : p.Composed) {s t : TypeName} (hSimple : s.simple ≠ t.simple)
    (hs : '\n' ∉ s.text.toList) (ht : '\n' ∉ t.text.toList) :
    (add (add p.toUnit s).unit t).unit = (add (add p.toUnit t).unit s).unit := by
  have hOther : s.text ≠ t.text := fun hEq => hSimple (congrArg Text.lastPart hEq)
  have hFronted : ∀ n ∈ p.imports, n.Fronted := fun n hn =>
    Node.fronted_import (hp.sound.imports n hn).1 (hp.sound.imports n hn).2
  have hAdds {u : TypeName} (hWanted : Wanted p u) :
      Adds (lineEnd p.toUnit.text) u p (withImport (lineEnd p.toUnit.text) u p) :=
    adds_withImport _ u (types_of_isDenoted hWanted.denoted)
  -- what is not wanted is not wanted after the other either
  have hUnwanted {s t : TypeName} (hSimple : s.simple ≠ t.simple) (hNot : ¬ Wanted p t) :
      (add (add p.toUnit s).unit t).unit = (add p.toUnit s).unit := by
    by_cases hWanted : Wanted p s
    · rw [(add_of_wanted hWanted).1]
      exact (add_of_unwanted (((hAdds hWanted).wanted_iff hSimple).not.mpr hNot)).1
    · rw [(add_of_unwanted hWanted).1]
      exact (add_of_unwanted hNot).1
  by_cases hS : Wanted p s
  · by_cases hT : Wanted p t
    · have hTypes := types_of_isDenoted hT.denoted
      rw [(add_of_wanted hS).1, (add_of_wanted hT).1,
        (add_of_wanted (((hAdds hS).wanted_iff hSimple).mpr hT)).1,
        (add_of_wanted (((hAdds hT).wanted_iff hSimple.symm).mpr hS)).1,
        (hAdds hS).lineEnd hp hs, (hAdds hT).lineEnd hp ht, withImport_comm hOther hTypes hFronted]
    · rw [hUnwanted hSimple hT, (add_of_unwanted hT).1]
  · rw [hUnwanted hSimple.symm hS, (add_of_unwanted hS).1]

open Draft in
/-- Imports out of order, a static one among them, and names of two nested classes. -/
def siblingNames : Sample := .ofDraft (node "program" [
  importing ["Z", "z"],
  importingStatic ["B", "b"] "\r\n",
  importing ["A", "a"] "\n",
  classOf "M" none (braced "class_body" [
    classOf "C" none (braced "class_body" [] " " "") " ",
    classOf "D" none (braced "class_body" [] " " "") " ",
    fieldOf (typeWord "C" " ") "c", fieldOf (typeWord "D" " ") "d"]) "\n\n"]) "\n"

/-- The text with the imports of both. -/
def siblingNamesImported : String :=
  "import M.C;\r\nimport M.D;\r\nimport z.Z;\r\nimport static b.B.*;\nimport a.A;\n\n" ++
    "class M \x7b class C \x7b\x7d class D \x7b\x7d C c; D d; \x7d\n"

set_option maxRecDepth 100000 in
theorem adds_commute_siblingNames : ∃ p : UnitParts, siblingNames.resolved? ⟨defaultStubs⟩ = some p.toUnit ∧
    p.Composed ∧ (⟨"M.C"⟩ : TypeName).simple ≠ (⟨"M.D"⟩ : TypeName).simple ∧
    (add (add p.toUnit ⟨"M.C"⟩).unit ⟨"M.D"⟩).unit.text = siblingNamesImported ∧
    (add (add p.toUnit ⟨"M.D"⟩).unit ⟨"M.C"⟩).unit.text = siblingNamesImported := by
  have hSome : ((siblingNames.resolved? ⟨defaultStubs⟩).map fun unit =>
      (add (add unit ⟨"M.C"⟩).unit ⟨"M.D"⟩).unit.text) = some siblingNamesImported := by
    decide +kernel
  obtain ⟨unit, hUnit, hText⟩ := Option.map_eq_some_iff.mp hSome
  obtain ⟨p, rfl, hp⟩ := exists_composed_of_sample (by decide +kernel) hUnit
  have hSimple : (⟨"M.C"⟩ : TypeName).simple ≠ (⟨"M.D"⟩ : TypeName).simple := by decide +kernel
  have hEither := adds_commute hp hSimple (by decide +kernel) (by decide +kernel)
  exact ⟨p, hUnit, hp, hSimple, hText, hEither ▸ hText⟩

end Imports

end SourceMigration
