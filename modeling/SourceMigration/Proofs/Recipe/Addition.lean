import SourceMigration.Proofs.Editing.NewImport
import SourceMigration.Proofs.Recipe.Composed

/-!
# SourceMigration — what the addition of an import does

An addition leaves the unit alone, or it puts one single-type import into it and hands the trivia of a
neighbour on to that import. What the trivia hold besides blanks stays what it was and in the order it
had, imports in order stay in order, and nothing is left to do: the same import is not added again, and
a type that a simple name denotes is served, unless another import has taken its simple name.

## Results

* `Adds.inserts`           — a new import stands alone, among the others or before a neighbour.
* `Adds.gathered`          — what is gathered from trivia, blanks left out, stays the same.
* `ascending_withImport`   — imports in the order of their names stay in order.
* `adds_one_import`        — all that the addition of an import does to a resolved unit.
-/

namespace SourceMigration

-- ---------------------------------------------------------------------------
-- What trivia hold
-- ---------------------------------------------------------------------------

section Gathered

variable {α : Type} (g : String → List α)

/-- What is gathered from the trivia of a node, in the order of the text. -/
def Node.gathered (n : Node) : List α := n.tokens.flatMap fun t => g t.leading

/-- The trivia of a node without blanks. -/
def Node.ink (n : Node) : List Char :=
  n.gathered fun l => l.toList.filter fun c => !Text.isBlank c

/-- Nothing is gathered from blanks. -/
def Sparing : Prop := ∀ l, Layout.Blanks l → g l = []

variable {g}

theorem sparing_ink : Sparing fun l : String => l.toList.filter fun c => !Text.isBlank c := by
  intro l hl
  refine List.filter_eq_nil_iff.mpr fun c hc => ?_
  have hGap := hl c hc
  simp only [Text.isGap, Bool.or_eq_true, beq_iff_eq] at hGap
  rcases hGap with ((((rfl | rfl) | rfl) | rfl) | rfl) | rfl <;> decide

theorem sparing_comments : Sparing Layout.comments := fun l hl =>
  Layout.comments_eq_nil fun hSlash => by simpa [Text.isGap] using hl '/' hSlash

theorem UnitParts.gathered_toUnit (p : UnitParts) :
    p.toUnit.gathered g = p.package.toList.flatMap (Node.gathered g) ++
      (p.imports.flatMap (Node.gathered g) ++ (p.types.flatMap (Node.gathered g) ++
        p.endMarker.flatMap (Node.gathered g))) := by
  rw [Node.gathered, tokens_toUnit, nodes]
  simp only [List.flatMap_append, List.flatMap_assoc, List.append_assoc]
  rfl

/-- What a node that begins with a token holds: what is before it, and the rest. -/
theorem Node.Fronted.exists_gathered {n : Node} (h : n.Fronted) :
    ∃ rest, ∀ l, (n.withLeading l).gathered g = g l ++ rest := by
  obtain ⟨t, ts, hTokens⟩ := h.exists_tokens
  refine ⟨ts.flatMap fun t => g t.leading, fun l => ?_⟩
  rw [gathered, hTokens, List.flatMap_cons]
  rfl

/-- A new import holds only what is before it. -/
theorem Node.gathered_importOf (hg : Sparing g) (t : TypeName) (l : String) :
    (importOf t l).gathered g = g l := by
  have hEmpty : g "" = [] := hg "" (by simp [Layout.Blanks])
  have hBlank : g " " = [] := hg " " (by simp [Layout.Blanks, Text.isGap])
  have hName : ∀ (parts : List String) (l : String), g l = [] →
      (nameTokens l parts).flatMap (fun t => g t.leading) = [] := by
    intro parts
    induction parts with
    | nil => exact fun _ _ => rfl
    | cons part parts ih =>
      intro l hl
      cases parts with
      | nil => simpa [nameTokens, Token.identifier] using hl
      | cons next parts =>
        rw [nameTokens] <;> simp [Token.identifier, Token.operator, hl, hEmpty, ih]
  simp [gathered, importOf, ofDotted, tokens, tokensOf, Node.tokensOf_eq, List.flatMap_map,
    Token.keyword, Token.operator, hEmpty, hName _ _ hBlank]

/-- The trivia before a node may go over to an import put before it. -/
theorem gathered_handOver (hg : Sparing g) (t : TypeName) {next : Node} (hNext : next.Fronted)
    {newline : String} (hNewline : Layout.Blanks newline) :
    (Node.importOf t next.leading).gathered g ++ (next.withLeading newline).gathered g =
      next.gathered g := by
  obtain ⟨rest, hRest⟩ := hNext.exists_gathered (g := g)
  have hSelf := hRest next.leading
  rw [hNext.withLeading_leading] at hSelf
  rw [Node.gathered_importOf hg, hRest, hg _ hNewline, List.nil_append, hSelf]

end Gathered

namespace Imports

variable {p q : UnitParts} {t : TypeName} {newline : String} {front back imports : List Node}
  {next : Node}

section

variable {α : Type} {g : String → List α}

/-- What is gathered from the trivia of a unit is what it was before. -/
theorem Adds.gathered (h : Adds newline t p q) (hg : Sparing g) (hNewline : Layout.Blanks newline)
    (hp : p.Sound) (hHeaded : p.Headed) : q.toUnit.gathered g = p.toUnit.gathered g := by
  have hNew {l : String} (hl : Layout.Blanks l) : (Node.importOf t l).gathered g = [] := by
    rw [Node.gathered_importOf hg, hg l hl]
  rw [UnitParts.gathered_toUnit, UnitParts.gathered_toUnit]
  cases h with
  | @before front back next hImports =>
    have hSound := hp.imports next (by simp [hImports])
    simp only [hImports, List.flatMap_append, List.flatMap_cons, ← List.append_assoc,
      ← gathered_handOver hg t (Node.fronted_import hSound.1 hSound.2) hNewline]
  | behind hImports => simp [hImports, hNew hNewline]
  | alone hImports => simp [hImports, hNew (hNewline.append hNewline)]
  | @first first rest hImports hPackage hTypes =>
    simp only [hImports, hPackage, hTypes, List.flatMap_cons, List.flatMap_nil, List.append_nil,
      List.nil_append, ← List.append_assoc,
      gathered_handOver hg t (hHeaded first (by simp [hTypes])) (hNewline.append hNewline)]

end

-- ---------------------------------------------------------------------------
-- One import more
-- ---------------------------------------------------------------------------

/-- One single-type import more. Nothing else is another but the trivia before its neighbour, which is
the import behind it or the first type. -/
inductive Inserts (t : TypeName) (p : UnitParts) : UnitParts → Prop where
  | before {front back : List Node} {next : Node} (l l' : String)
      (hImports : p.imports = front ++ next :: back) :
      Inserts t p { p with imports := front ++ Node.importOf t l :: next.withLeading l' :: back }
  | among {front back : List Node} (l : String) (hImports : p.imports = front ++ back) :
      Inserts t p { p with imports := front ++ Node.importOf t l :: back }
  | first {first : Node} {rest : List Node} (l l' : String) (hPackage : p.package = none)
      (hImports : p.imports = []) (hTypes : p.types = first :: rest) :
      Inserts t p { p with
        imports := [Node.importOf t l]
        types := first.withLeading l' :: rest }

theorem Adds.inserts (h : Adds newline t p q) : Inserts t p q := by
  cases h with
  | before hImports => exact .before _ _ hImports
  | @behind front back last hImports =>
    rw [List.append_cons]
    exact .among _ (by simpa using hImports)
  | alone hImports => exact .among _ (show p.imports = [] ++ [] from hImports)
  | first hImports hPackage hTypes => exact .first _ _ hPackage hImports hTypes

/-- The names of the imports that are not static. -/
def regularNames (imports : List Node) : List String :=
  (imports.filter (!Import.isStatic ·)).map Import.qualifiedName

/-- The imports that are not static stand in the order of their names. -/
def Ascending (imports : List Node) : Prop := (regularNames imports).Pairwise (· ≤ ·)

@[simp] theorem regularNames_nil : regularNames [] = [] := rfl

@[simp] theorem regularNames_append (front back : List Node) :
    regularNames (front ++ back) = regularNames front ++ regularNames back := by
  simp [regularNames]

theorem regularNames_cons (imp : Node) (back : List Node) :
    regularNames (imp :: back) =
      if Import.isStatic imp then regularNames back
      else Import.qualifiedName imp :: regularNames back := by
  cases h : Import.isStatic imp <;> simp [regularNames, h]

theorem regularNames_eq_nil (h : ∀ i ∈ imports, Import.isStatic i = true) :
    regularNames imports = [] := by
  simpa [regularNames] using h

/-- Names that are not behind a new one are at most that one. -/
theorem le_of_free (h : Free t imports) : ∀ name ∈ regularNames imports, name ≤ t.text := by
  intro name hName
  obtain ⟨i, hi, rfl⟩ := List.mem_map.mp hName
  obtain ⟨hi, hStatic⟩ := List.mem_filter.mp hi
  exact String.not_lt.mp fun hLess => h i hi ⟨by simpa using hStatic, hLess⟩

/-- A name comes between the names that are at most it and those that are at least it. -/
theorem pairwise_insert {names more : List String} {name : String}
    (h : (names ++ more).Pairwise (· ≤ ·)) (hNames : ∀ n ∈ names, n ≤ name)
    (hMore : ∀ n ∈ more, name ≤ n) : (names ++ name :: more).Pairwise (· ≤ ·) := by
  obtain ⟨hFront, hBack, hBoth⟩ := List.pairwise_append.mp h
  refine List.pairwise_append.mpr ⟨hFront, List.pairwise_cons.mpr ⟨hMore, hBack⟩, ?_⟩
  exact fun a ha => List.forall_mem_cons.mpr ⟨hNames a ha, hBoth a ha⟩

theorem ascending_insertInto (h : Ascending imports) : Ascending (insertInto newline t imports) := by
  unfold Ascending at h ⊢
  cases exists_place t imports with
  | @before front back next hFront hNext =>
    rw [insertInto_before _ _ hFront hNext]
    obtain ⟨hStatic, hLess⟩ := hNext
    rw [regularNames_append, regularNames_cons, hStatic] at h
    have hLe : t.text ≤ Import.qualifiedName next := String.not_lt.mp (String.lt_asymm hLess)
    have hRest := (List.pairwise_cons.mp (List.pairwise_append.mp h).2.1).1
    have hNew := pairwise_insert h (le_of_free hFront)
      (List.forall_mem_cons.mpr ⟨hLe, fun n hn => String.le_trans hLe (hRest n hn)⟩)
    simpa [regularNames_cons, Import.isStatic_withLeading, Import.qualifiedName_withLeading, hStatic]
      using hNew
  | @behind front back last hNone hLast hBack =>
    rw [insertInto_behind _ hNone hLast hBack]
    have hAll : (regularNames (front ++ last :: back) ++ []).Pairwise (· ≤ ·) := by simpa using h
    have hNew := pairwise_insert hAll (le_of_free hNone) (by simp)
    simpa [regularNames_cons, regularNames_eq_nil hBack, hLast] using hNew
  | last hStatic =>
    rw [insertInto_last _ hStatic]
    simp [regularNames_eq_nil hStatic, regularNames_cons]

/-- Imports that stand in order still do when one has been added. -/
theorem ascending_withImport (h : Ascending p.imports) :
    Ascending (withImport newline t p).imports := by
  have hOne (l : String) : Ascending [Node.importOf t l] := by simp [Ascending, regularNames]
  unfold withImport
  split
  · exact hOne _
  · exact hOne _
  · exact ascending_insertInto h

-- ---------------------------------------------------------------------------
-- What an addition achieves
-- ---------------------------------------------------------------------------

/-- What serves a simple name that denotes a type, or bars the type from being imported. -/
inductive Provided (p : UnitParts) (t : TypeName) : Prop where
  | language (h : t.package = languagePackage)
  | own (h : t.package = Unit.packageName p.toUnit)
  | imported {i : Node} (hi : i ∈ p.imports) (hSingle : Import.isSingle i = true)
      (h : Import.qualifiedName i = t.text)
  | onDemand {i : Node} (hi : i ∈ p.imports) (hStatic : Import.isStatic i = false)
      (hWildcard : Import.isWildcard i = true) (h : Import.qualifiedName i = t.package)
  | taken {i : Node} (hi : i ∈ p.imports) (hSingle : Import.isSingle i = true)
      (hSimple : Import.simpleName i = t.simple) (hOther : Import.qualifiedName i ≠ t.text)

theorem Covers.provided (h : Covers p.imports t) : Provided p t := by
  obtain ⟨i, hi, hCover⟩ := h
  unfold cover? at hCover
  split at hCover
  · exact absurd rfl hCover
  · rename_i hStatic
    simp only at hCover
    split at hCover
    · rename_i hWildcard
      split at hCover
      · rename_i hName
        exact .onDemand hi (by simpa using hStatic) hWildcard hName
      · exact absurd rfl hCover
    · rename_i hWildcard
      have hSingle : Import.isSingle i = true := by simp [Import.isSingle, hStatic, hWildcard]
      split at hCover
      · rename_i hSimple
        by_cases hName : Import.qualifiedName i = t.text
        · exact .imported hi hSingle hName
        · exact .taken hi hSingle hSimple hName
      · exact absurd rfl hCover

theorem Adds.exists_mem (h : Adds newline t p q) : ∃ l, Node.importOf t l ∈ q.imports := by
  cases h with
  | before => exact ⟨_, List.mem_append_right _ List.mem_cons_self⟩
  | behind => exact ⟨_, List.mem_append_right _ (List.mem_cons_of_mem _ List.mem_cons_self)⟩
  | alone | first => exact ⟨_, List.mem_singleton_self _⟩

/-- What has been added is not wanted any more. -/
theorem Adds.not_wanted (h : Adds newline t p q) : ¬ Wanted q t := by
  obtain ⟨l, hl⟩ := h.exists_mem
  exact fun hWanted => hWanted.uncovered ⟨_, hl, cover_own t l⟩

/-- A type that is denoted by a simple name and not wanted is provided for. -/
theorem provided_of_not_wanted (h : ¬ Wanted p t) (hDenoted : isDenoted p.toUnit t = true) :
    Provided p t := by
  by_cases hForeign : t.package = languagePackage ∨ t.package = Unit.packageName p.toUnit
  · exact hForeign.elim .language .own
  · exact Covers.provided (by_contra fun hCovers => h ⟨hForeign, hCovers, hDenoted⟩)

/-- A simple name outside the imports that denotes a type stands in one of the types of the unit. -/
theorem isDenoted_of_mem (hp : p.Sound) {n m : Node} (hn : n ∈ p.package.toList ++ p.types)
    (hm : m ∈ n.walk) (hForm : m.form = .name) (hSimple : m.nameParts.length ≤ 1)
    (hDenoted : m.denoted? = some t) : isDenoted p.toUnit t = true := by
  rcases List.mem_append.mp hn with hn | hn
  · have hBare := (hp.package n (Option.mem_toList.mp hn)).2.2.walk m hm
    obtain ⟨type, cs, rfl⟩ := Node.exists_name hForm
    cases hBare with
    | branch hKind _ => simp [NodeKind.isBare, show type = some t from hDenoted] at hKind
  · refine List.any_eq_true.mpr ⟨m, Node.mem_bodyNames.mpr ⟨⟨n, ?_, hm⟩, hForm⟩, ?_⟩
    · rwa [p.types_toUnit]
    · simp [hSimple, hDenoted]

/-- An import that comes leaves a unit composed. -/
theorem composed_add (ht : ∀ part ∈ Text.splitDots t.text, part ≠ "") (hp : p.Composed)
    (hq : (add p.toUnit t).unit = q.toUnit) : q.Composed := by
  obtain ⟨r, hr, hSound, hFront⟩ := reimports_add hp.sound t
  obtain rfl : r = q := UnitParts.toUnit_inj (hr.symm.trans hq)
  refine ⟨hSound, hp.headed.reimports hFront, tidy_add ht hp.tidy hq, ?_⟩
  obtain ⟨hPackage, hImports⟩ := List.forall_mem_append.mp hp.closed
  rw [hFront.package, List.forall_mem_append]
  refine ⟨hPackage, ?_⟩
  rcases add_cases hq with rfl | hAdds
  · exact hImports
  · exact hAdds.imports (fun n l hn => hn.withLeading l) (Node.closed_importOf t) hImports

/-- All that the addition of the import of a type does to a unit. -/
structure Added (t : TypeName) (p q : UnitParts) (changed : Bool) : Prop where
  /-- Nothing, or one import more. -/
  shape : changed = false ∧ q = p ∨ changed = true ∧ Inserts t p q
  /-- The signs in the trivia are those that were there, in the order they had. -/
  ink : q.toUnit.ink = p.toUnit.ink
  /-- So are the comments. -/
  comments : q.toUnit.comments = p.toUnit.comments
  ascending : Ascending p.imports → Ascending q.imports
  /-- The same import is not added again. -/
  again : (add q.toUnit t).unit = q.toUnit ∧ (add q.toUnit t).changed = false
  /-- Wherever a simple name outside the imports denotes the type, there is no need of an import or no
  place for it. -/
  provided : ∀ n ∈ q.package.toList ++ q.types, ∀ m ∈ n.walk, m.form = .name →
    m.nameParts.length ≤ 1 → m.denoted? = some t → Provided q t
  /-- Further imports can be added and removed as before, unless a part of the name is empty. -/
  composed : (∀ part ∈ Text.splitDots t.text, part ≠ "") → q.Composed

/-- **Adding an import to a unit leaves the unit alone or inserts that one import.** -/
theorem adds_one_import {p : UnitParts} (hp : p.Composed) (t : TypeName) :
    ∃ q : UnitParts, (add p.toUnit t).unit = q.toUnit ∧ Added t p q (add p.toUnit t).changed := by
  have hProvided {q : UnitParts} (hq : q.Sound) (hNot : ¬ Wanted q t) :
      ∀ n ∈ q.package.toList ++ q.types, ∀ m ∈ n.walk, m.form = .name → m.nameParts.length ≤ 1 →
        m.denoted? = some t → Provided q t := fun n hn m hm hForm hSimple hDenoted =>
    provided_of_not_wanted hNot (isDenoted_of_mem hq hn hm hForm hSimple hDenoted)
  by_cases hWanted : Wanted p t
  · obtain ⟨hUnit, hChanged⟩ := add_of_wanted hWanted
    have hAdds := adds_withImport (lineEnd p.toUnit.text) t (types_of_isDenoted hWanted.denoted)
    have hBlanks := blanks_lineEnd p.toUnit.text
    obtain ⟨q, hq, hSound, -⟩ := reimports_add hp.sound t
    obtain rfl := UnitParts.toUnit_inj (hUnit.symm.trans hq)
    refine ⟨_, hUnit, ?_⟩
    exact {
      shape := Or.inr ⟨hChanged, hAdds.inserts⟩
      ink := hAdds.gathered sparing_ink hBlanks hp.sound hp.headed
      comments := hAdds.gathered sparing_comments hBlanks hp.sound hp.headed
      ascending := ascending_withImport
      again := add_of_unwanted hAdds.not_wanted
      provided := hProvided hSound hAdds.not_wanted
      composed := fun ht => composed_add ht hp hUnit }
  · obtain ⟨hUnit, hChanged⟩ := add_of_unwanted hWanted
    refine ⟨p, hUnit, ?_⟩
    exact {
      shape := Or.inl ⟨hChanged, rfl⟩
      ink := rfl
      comments := rfl
      ascending := id
      again := add_of_unwanted hWanted
      provided := hProvided hp.sound hWanted
      composed := fun _ => hp }

open Draft in
/-- A comment before the first import, and a name of a nested class. -/
def nestedName : Sample := .ofDraft (node "program" [
  lineComment "// first" "",
  importingStatic ["Math", "lang", "java"] "\n",
  importing ["List", "util", "java"] "\n",
  classOf "A" none (braced "class_body" [
    classOf "B" none (braced "class_body" [] " " "") " ",
    fieldOf (typeWord "B" " ") "b"]) "\n\n"]) "\n"

/-- The text with the import of the nested class. -/
def nestedNameImported : String :=
  "// first\nimport static java.lang.Math.*;\nimport A.B;\nimport java.util.List;\n\n" ++
    "class A \x7b class B \x7b\x7d B b; \x7d\n"

set_option maxRecDepth 100000 in
theorem adds_one_import_nestedName : ∃ p q : UnitParts, nestedName.resolved? ⟨defaultStubs⟩ = some p.toUnit ∧
    p.Composed ∧ (add p.toUnit ⟨"A.B"⟩).unit = q.toUnit ∧ q.toUnit.text = nestedNameImported ∧
    Added ⟨"A.B"⟩ p q true := by
  have hSome : ((nestedName.resolved? ⟨defaultStubs⟩).map fun unit =>
      ((add unit ⟨"A.B"⟩).changed, (add unit ⟨"A.B"⟩).unit.text)) = some (true, nestedNameImported) := by
    decide +kernel
  obtain ⟨unit, hUnit, hSome⟩ := Option.map_eq_some_iff.mp hSome
  obtain ⟨hChanged, hText⟩ := Prod.mk.inj hSome
  obtain ⟨p, rfl, hp⟩ := exists_composed_of_sample (by decide +kernel) hUnit
  obtain ⟨q, hq, hAdded⟩ := adds_one_import hp ⟨"A.B"⟩
  rw [hChanged] at hAdded
  exact ⟨p, q, hUnit, hp, hq, hq ▸ hText, hAdded⟩

end Imports

end SourceMigration
