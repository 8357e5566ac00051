import SourceMigration.Proofs.Editing.Serving
import SourceMigration.Proofs.Tree.Comments
import SourceMigration.Proofs.Tree.Fronted

/-!
# SourceMigration — comments among the imports

The trivia of imports move: an import that is put before another takes over its trivia, and one that
goes leaves its first blanks to the next. The comments of an import go with it, and no others; those
before the first type stay where they are, or go over to an import put before it.

`fronts` lists the comments of the imports and those before the first type, where the comments of the
imports that may go are exposed.

## Results

* `thins_add`, `thins_remove` — what adding and removing an import does to these comments.
* `thins_runAll`              — what the passes of a queue do to them.
-/

namespace SourceMigration

-- ---------------------------------------------------------------------------
-- What holds no comment
-- ---------------------------------------------------------------------------

namespace Imports

/-- A slash alone is no piece of trivia. -/
theorem pieceLength_of_slash {d : Char} (hLine : d ≠ '/') (hBlock : d ≠ '*') (cs : List Char) :
    Layout.pieceLength? ('/' :: d :: cs) = none := by
  unfold Layout.pieceLength?
  split
  · rename_i hEq
    exact absurd (List.cons.inj (List.cons.inj hEq).2).1 hLine
  · rename_i hEq
    exact absurd (List.cons.inj (List.cons.inj hEq).2).1 hBlock
  · rename_i hEq
    rw [← (List.cons.inj hEq).1]
    rfl
  · rename_i hEq
    cases hEq

/-- Trivia without the two signs that begin a comment hold none. -/
theorem comments_of_not_hasComment {trivia : String} (h : hasComment trivia = false) :
    Layout.comments trivia = [] := by
  have hNone : ∀ (fuel : Nat) (cs : List Char),
      ((cs.zip (cs.drop 1)).any fun p => p.1 == '/' && (p.2 == '/' || p.2 == '*')) = false →
        Layout.commentsFrom fuel cs = [] := by
    intro fuel
    induction fuel with
    | zero => exact fun _ _ => rfl
    | succ fuel ih =>
      intro cs hPairs
      cases cs with
      | nil => rfl
      | cons c cs =>
        cases cs with
        | nil =>
          rw [Layout.commentsFrom]
          split
          · rename_i hSlash
            subst hSlash
            exact ih [] rfl
          · exact ih [] rfl
        | cons d cs =>
          obtain ⟨hFirst, hRest⟩ := Bool.or_eq_false_iff.mp hPairs
          rw [Layout.commentsFrom]
          split
          · rename_i hSlash
            obtain ⟨hLine, hBlock⟩ : d ≠ '/' ∧ d ≠ '*' := by simpa [hSlash] using hFirst
            rw [hSlash, pieceLength_of_slash hLine hBlock]
            exact ih (d :: cs) hRest
          · exact ih (d :: cs) hRest
  exact hNone _ _ h

theorem slash_notMem_lineEnd (text : String) : '/' ∉ (lineEnd text).toList := by
  unfold lineEnd
  simp only
  split <;> decide

end Imports

-- ---------------------------------------------------------------------------
-- Comments at the front of a unit
-- ---------------------------------------------------------------------------

/-- Whether an import is of one of some types, and of that type alone. -/
def importsOneOf (ts : List TypeName) (imp : Node) : Bool :=
  Import.isSingle imp && ts.any fun t => Import.qualifiedName imp == t.text

/-- The comments of an import, which are exposed if its type is one of those that go. -/
def importComments (gone : List TypeName) (imp : Node) : List Comment :=
  marked (importsOneOf gone imp) imp.comments

theorem importsOneOf_withLeading (ts : List TypeName) (imp : Node) (l : String) :
    importsOneOf ts (imp.withLeading l) = importsOneOf ts imp := by
  simp only [importsOneOf, Import.isSingle, Import.isStatic_withLeading,
    Import.isWildcard_withLeading, Import.qualifiedName_withLeading]

@[simp] theorem Node.comments_importOf (t : TypeName) (l : String) :
    (Node.importOf t l).comments = Layout.comments l := by
  have hEmpty : Layout.comments "" = [] := rfl
  have hBlank : Layout.comments " " = [] := by decide
  simp [Node.importOf, Node.comments_branch, Token.comments, Token.keyword, Token.operator, hEmpty,
    hBlank]

/-- The comments of a node that begins with a token: those before it, and others. -/
theorem Node.Fronted.exists_comments {n : Node} (h : n.Fronted) :
    ∃ rest, ∀ l, (n.withLeading l).comments = Layout.comments l ++ rest := by
  obtain ⟨t, ts, hTokens⟩ := h.exists_tokens
  refine ⟨ts.flatMap Token.comments, fun l => ?_⟩
  rw [Node.comments, hTokens, List.flatMap_cons, Token.comments_withLeading]

/-- An import begins with its first word. -/
theorem Node.fronted_import {n : Node} (hForm : n.form = .importDeclaration) (h : n.WellFormed) :
    n.Fronted := by
  obtain ⟨cs, rfl⟩ := Node.exists_children (k := .importDeclaration) rfl hForm
  obtain ⟨t, ht⟩ := h.exists_filed_token (f := .keyword) (by simp [NodeKind.slots])
  have hOrder := h.fieldwise.1
  simp only [NodeKind.slots, List.flatMap_cons, ht, List.map_cons, List.map_nil,
    List.cons_append] at hOrder
  rw [hOrder]
  exact .branch (.token t)

namespace UnitParts

/-- The trivia before the first type. -/
def typeLeading (p : UnitParts) : String := (p.types.head?.map Node.leading).getD ""

/-- The comments of the imports and those before the first type. -/
def fronts (gone : List TypeName) (p : UnitParts) : List Comment :=
  p.imports.flatMap (importComments gone) ++ marked false (Layout.comments p.typeLeading)

/-- The first type begins with a token. -/
def Headed (p : UnitParts) : Prop := ∀ n ∈ p.types.head?, n.Fronted

variable {p q : UnitParts}

theorem Headed.reimports (h : p.Headed) (hFront : p.Reimports q) : q.Headed := by
  obtain ⟨l, hTypes⟩ := hFront.types
  intro n hn
  rw [hTypes] at hn
  cases hHead : p.types with
  | nil => simp [hHead] at hn
  | cons first rest =>
    obtain rfl : first.withLeading l = n := by simpa [hHead] using hn
    exact (h first (by simp [hHead])).withLeading l

/-- After an edit of names and calls that keeps their fronts, the first type begins as before. -/
theorem Headed.mapTypes {f : Node → Node} (hf : Node.KeepsFronts f) (h : p.Headed) (hp : p.Sound) :
    (p.mapTypes (Node.mapLeaves f)).Headed ∧
      (p.mapTypes (Node.mapLeaves f)).typeLeading = p.typeLeading := by
  unfold Headed typeLeading UnitParts.mapTypes
  cases hHead : p.types with
  | nil => simp
  | cons first rest =>
    have hFine := (hp.types first (by simp [hHead])).2
    obtain ⟨hFronted, hLeading⟩ := Node.fronted_mapLeaves hf hFine (h first (by simp [hHead]))
    simp [hFronted, hLeading]

end UnitParts

-- ---------------------------------------------------------------------------
-- Adding and removing imports
-- ---------------------------------------------------------------------------

namespace Imports

variable {p q : UnitParts} {gone : List TypeName} {t : TypeName}

theorem importComments_importOf (hNew : importsOneOf gone (Node.importOf t) = false) (l : String) :
    importComments gone (Node.importOf t l) = marked false (Layout.comments l) := by
  rw [importComments, Node.comments_importOf,
    show Node.importOf t l = (Node.importOf t).withLeading l from rfl, importsOneOf_withLeading,
    hNew]

/-- The trivia of an import may go over to a new one before it. -/
theorem thins_handOver (hNew : importsOneOf gone (Node.importOf t) = false) {newline : String}
    (hNewline : '/' ∉ newline.toList) {next : Node} (hNext : next.Fronted) :
    Thins (importComments gone next)
      (importComments gone (Node.importOf t next.leading) ++
        importComments gone (next.withLeading newline)) := by
  obtain ⟨rest, hRest⟩ := hNext.exists_comments
  have hSelf := hRest next.leading
  rw [hNext.withLeading_leading] at hSelf
  rw [importComments_importOf hNew, importComments, importComments, importsOneOf_withLeading,
    hRest, hSelf, Layout.comments_eq_nil hNewline, List.nil_append, marked_append]
  exact (Thins.stay _ _).append (.refl _)

/-- Adding an import takes away no comment. -/
theorem thins_add (hp : p.Sound) (hHeaded : p.Headed)
    (hNew : importsOneOf gone (Node.importOf t) = false) (hq : (add p.toUnit t).unit = q.toUnit) :
    Thins (p.fronts gone) (q.fronts gone) := by
  have hEnd := slash_notMem_lineEnd p.toUnit.text
  have hEnds : '/' ∉ (lineEnd p.toUnit.text ++ lineEnd p.toUnit.text).toList := by
    rw [String.toList_append]
    exact fun hMem => (List.mem_append.mp hMem).elim hEnd hEnd
  rcases add_cases hq with rfl | hAdds
  · exact .refl _
  cases hAdds with
  | @before front back next hImports =>
    have hSound := hp.imports next (by simp [hImports])
    simp only [UnitParts.fronts, hImports, List.flatMap_append, List.flatMap_cons, ← List.append_assoc]
    refine Thins.append ?_ (.refl _)
    refine Thins.append ?_ (.refl _)
    rw [List.append_assoc]
    exact (Thins.refl _).append (thins_handOver hNew hEnd (Node.fronted_import hSound.1 hSound.2))
  | behind hImports =>
    simp [UnitParts.fronts, UnitParts.typeLeading, hImports, importComments_importOf hNew,
      Layout.comments_eq_nil hEnd, Thins.refl]
  | alone hImports =>
    simp [UnitParts.fronts, UnitParts.typeLeading, hImports, importComments_importOf hNew,
      Layout.comments_eq_nil hEnds, Thins.refl]
  | @first first rest hImports hPackage hTypes =>
    have hFirst : first.Fronted := hHeaded first (by simp [hTypes])
    simp [UnitParts.fronts, UnitParts.typeLeading, hImports, hTypes, hFirst,
      Layout.comments_eq_nil hEnds, importComments_importOf hNew, Thins.refl]

/-- Removing an import takes away no comment but those of an import that may go. -/
theorem thins_remove (hp : p.Sound) (hHeaded : p.Headed) (hOld : t ∈ gone)
    (hq : (remove p.toUnit t).unit = q.toUnit) : Thins (p.fronts gone) (q.fronts gone) := by
  rcases remove_cases hq with rfl | ⟨front, imp, back, hImports, hImp, hDrops⟩
  · exact .refl _
  have hGone : importComments gone imp = marked true imp.comments := by
    obtain ⟨hSingle, hName⟩ : Import.isSingle imp = true ∧ Import.qualifiedName imp = t.text := by
      simpa [isCopy] using hImp
    have hOneOf : importsOneOf gone imp = true := by
      rw [importsOneOf, hSingle, Bool.true_and, List.any_eq_true]
      exact ⟨t, hOld, by simp [hName]⟩
    rw [importComments, hOneOf]
  have hSpacing := Layout.slash_notMem_leadingBlank imp.leading
  -- the comments of the import may go, whatever becomes of the others
  have hDropped (rest : List Node)
      (h : Thins (back.flatMap (importComments gone)) (rest.flatMap (importComments gone))) :
      Thins (p.imports.flatMap (importComments gone))
        ((front ++ rest).flatMap (importComments gone)) := by
    rw [hImports, List.flatMap_append, List.flatMap_cons, hGone, List.flatMap_append]
    exact (Thins.refl _).append ((Thins.gone _).append h)
  cases hDrops with
  | closed => exact (hDropped back (.refl _)).append (.refl _)
  | @handed front rest next hNone =>
    have hSound := hp.imports next (by simp [hImports])
    obtain ⟨others, hOthers⟩ := (Node.fronted_import hSound.1 hSound.2).exists_comments
    have hNextSelf := hOthers next.leading
    rw [(Node.fronted_import hSound.1 hSound.2).withLeading_leading, comments_of_not_hasComment hNone]
      at hNextSelf
    refine (hDropped _ ?_).append (.refl _)
    rw [List.flatMap_cons, List.flatMap_cons]
    refine Thins.append ?_ (.refl _)
    rw [importComments, importComments, importsOneOf_withLeading, hOthers, hNextSelf,
      Layout.comments_eq_nil hSpacing]
  | @first first rest hPackage hTypes =>
    have hFirst : first.Fronted := hHeaded first (by simp [hTypes])
    refine (hDropped [] (.refl _)).append ?_
    simp only [UnitParts.typeLeading, hTypes, List.head?_cons, Option.map_some, Option.getD_some,
      hFirst.leading_withLeading, Layout.comments_append hSpacing, Layout.comments_dropBlank]
    exact .refl _

end Imports

-- ---------------------------------------------------------------------------
-- Passes
-- ---------------------------------------------------------------------------

namespace Node

theorem fronted_ofDotted (dotted l : String) (type : Option TypeName) :
    (ofDotted dotted l type).Fronted := by
  unfold ofDotted Text.splitDots
  obtain ⟨p, ps, hParts⟩ := List.exists_cons_of_ne_nil (Text.splitChars_ne_nil '.' dotted.toList)
  rw [hParts]
  cases ps <;> exact .branch (.token _)

theorem leading_ofDotted (dotted l : String) (type : Option TypeName) :
    (ofDotted dotted l type).leading = l := by
  have hLeading := (fronted_ofDotted dotted l type).leading_withLeading l
  rwa [withLeading_ofDotted] at hLeading

end Node

namespace Pass

variable {p q : UnitParts} {gone : List TypeName}

theorem keepsFronts_rename (pattern : MethodPattern) (newName : String) :
    Node.KeepsFronts (renamedCall pattern newName) := by
  intro k cs hk hFine hFront
  rcases exists_of_leaf hk hFine with ⟨t, ts, hEq⟩ | ⟨m, t, hEq⟩
  · rw [hEq] at hFront ⊢
    exact ⟨hFront, rfl⟩
  · rw [hEq, renamedCall_call]
    refine ⟨.branch (.token _), ?_⟩
    cases pattern.selects m <;> rfl

theorem keepsFronts_name (old new : TypeName) : Node.KeepsFronts (retypedName old new) := by
  intro k cs hk hFine hFront
  rcases exists_of_leaf hk hFine with ⟨t, ts, hEq⟩ | ⟨m, t, hEq⟩
  · rw [hEq] at hFront ⊢
    unfold Node.nameOf at hFront ⊢
    rw [retypedName_name]
    split
    · exact ⟨Node.fronted_ofDotted _ _ _, Node.leading_ofDotted _ _ _⟩
    · exact ⟨hFront, rfl⟩
  · rw [hEq, retypedName_call]
    exact ⟨.branch (.token _), rfl⟩

theorem keepsFronts_method (old new : TypeName) : Node.KeepsFronts (retypedCall old new) := by
  intro k cs hk hFine hFront
  rcases exists_of_leaf hk hFine with ⟨t, ts, hEq⟩ | ⟨m, t, hEq⟩
  · rw [hEq] at hFront ⊢
    exact ⟨hFront, rfl⟩
  · rw [hEq, retypedCall_call]
    exact ⟨.branch (.token _), rfl⟩

/-- The part of a pass that edits names and calls leaves the front of the first type alone. -/
theorem leading_onType (pass : Pass) (hp : p.Sound) (hHeaded : p.Headed) :
    (p.mapTypes pass.onType).Headed ∧ (p.mapTypes pass.onType).typeLeading = p.typeLeading := by
  have hSame : p.mapTypes id = p := by simp [UnitParts.mapTypes]
  cases pass with
  | renameMethod pattern newName => exact hHeaded.mapTypes (keepsFronts_rename pattern newName) hp
  | changeType old new =>
    obtain ⟨hHead, hNames⟩ := hHeaded.mapTypes (keepsFronts_name old new) hp
    obtain ⟨hHead, hCalls⟩ := hHead.mapTypes (keepsFronts_method old new)
      (hp.mapTypes (editsLeaves_name old new))
    have hBoth : p.mapTypes (onType (.changeType old new)) =
        (p.mapTypes (Node.mapLeaves (retypedName old new))).mapTypes
          (Node.mapLeaves (retypedCall old new)) := by
      simp [UnitParts.mapTypes, onType, Function.comp_def]
    rw [hBoth]
    exact ⟨hHead, hCalls.trans hNames⟩
  | addImport t =>
    rw [onType, hSame]
    exact ⟨hHeaded, rfl⟩
  | removeImport t =>
    rw [onType, hSame]
    exact ⟨hHeaded, rfl⟩

theorem fronts_onType (gone : List TypeName) (pass : Pass) (hp : p.Sound) (hHeaded : p.Headed) :
    (p.mapTypes pass.onType).fronts gone = p.fronts gone := by
  rw [UnitParts.fronts, UnitParts.fronts, (leading_onType pass hp hHeaded).2]
  rfl

/-- A pass that removes imports only of some types, and adds none of them. -/
def Spares (gone : List TypeName) : Pass → Prop
  | .renameMethod _ _ => True
  | .changeType old new => old ∈ gone ∧ importsOneOf gone (Node.importOf new) = false
  | .addImport t => importsOneOf gone (Node.importOf t) = false
  | .removeImport t => t ∈ gone

/-- A pass takes no comment from the front of a unit but those of imports that may go. -/
theorem thins_run {pass : Pass} (hPass : pass.Spares gone) (hp : p.Sound) (hHeaded : p.Headed)
    {j : Journal} (hq : (pass.run p.toUnit j).1.node = q.toUnit) :
    Thins (p.fronts gone) (q.fronts gone) := by
  cases pass with
  | renameMethod pattern newName =>
    obtain rfl : p.mapTypes (onType (.renameMethod pattern newName)) = q :=
      UnitParts.toUnit_inj ((renameCalls_toUnit hp pattern newName).symm.trans hq)
    rw [fronts_onType gone _ hp hHeaded]
  | addImport t => exact Imports.thins_add hp hHeaded hPass hq
  | removeImport t => exact Imports.thins_remove hp hHeaded hPass hq
  | changeType old new =>
    obtain ⟨hOld, hNew⟩ := hPass
    have hHead := (leading_onType (.changeType old new) hp hHeaded).1
    have hSound := sound_onType (.changeType old new) hp
    obtain ⟨r, hr, hrSound, hrFront⟩ := Imports.reimports_remove hSound old
    simp only [run, runAdd, runRemove, changeTypes_toUnit hp.formed, hr] at hq
    rw [← fronts_onType gone (.changeType old new) hp hHeaded]
    exact (Imports.thins_remove hSound hHead hOld hr).trans
      (Imports.thins_add hrSound (hHead.reimports hrFront) hNew hq)

/-- Passes one after another take no more. -/
theorem thins_runAll {passes : List Pass} (hPasses : ∀ pass ∈ passes, pass.Spares gone)
    (hp : p.Sound) (hHeaded : p.Headed) {changed : Bool} {j : Journal}
    (hq : (Queue.runAll passes ⟨p.toUnit, changed⟩ j).1.node = q.toUnit) :
    Thins (p.fronts gone) (q.fronts gone) := by
  have hStep : ∀ pass ∈ passes, ∀ (r : UnitParts) (j : Journal), r.Sound →
      (r.Headed ∧ Thins (p.fronts gone) (r.fronts gone)) →
        ∃ r' : UnitParts, (pass.run r.toUnit j).1.node = r'.toUnit ∧ r'.Sound ∧
          r'.Headed ∧ Thins (p.fronts gone) (r'.fronts gone) := by
    rintro pass hPass r j hr ⟨hHead, hThins⟩
    obtain ⟨r', hr', hrSound, hrFront⟩ := run_toUnit pass hr j
    exact ⟨r', hr', hrSound, (leading_onType pass hr hHead).1.reimports hrFront,
      hThins.trans (thins_run (hPasses pass hPass) hr hHead hr')⟩
  obtain ⟨r, hr, -, -, hThins⟩ := runAll_induct hStep hp ⟨hHeaded, .refl _⟩ changed j
  obtain rfl : r = q := UnitParts.toUnit_inj (hr.symm.trans hq)
  exact hThins

end Pass

end SourceMigration
