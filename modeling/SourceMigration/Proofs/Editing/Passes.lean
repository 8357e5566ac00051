import SourceMigration.Editing.Queue
import SourceMigration.Proofs.Editing.Importing
import SourceMigration.Proofs.Editing.Leafwise
import SourceMigration.Proofs.Tree.Fresh

/-!
# SourceMigration — passes over the parts of a unit

A pass works on a whole unit. Its edits of names and calls reach the types only: the package
denotes nothing, and imports have no calls and are left alone when types are changed. Adding
and removing an import touches the imports and, where nothing stands before the first type, the
trivia before that.

## Results

* `formed_of_wellFormed` — the parts of a well-formed unit.
* `replaceAll_toUnit`   — replacing names and calls in a unit is an edit of its types.
* `formed_add`, `formed_remove` — what adding and removing an import may touch.
* `run_toUnit`          — what a pass does to the parts of a unit, up to imports.
* `runAll_induct`       — what every pass keeps, the passes of a queue keep.
* `runAll_toUnit`       — what the passes of a queue do one after another.
-/

namespace SourceMigration

namespace UnitParts

/-- The parts of a unit as attribution leaves them, and as every pass does. -/
structure Sound (p : UnitParts) : Prop where
  package : ∀ n ∈ p.package, n.form = .packageDeclaration ∧ n.WellFormed ∧ n.Bare
  imports : ∀ n ∈ p.imports, n.form = .importDeclaration ∧ n.WellFormed
  types : ∀ n ∈ p.types, n.form ∈ memberForms ∧ n.WellFormed
  endMarker : ∀ n ∈ p.endMarker, n.form = .token

/-- The parts of a unit, each of its form and well-formed. -/
structure Formed (p : UnitParts) : Prop where
  package : ∀ n ∈ p.package, n.form = .packageDeclaration ∧ n.WellFormed
  imports : ∀ n ∈ p.imports, n.form = .importDeclaration ∧ n.WellFormed
  types : ∀ n ∈ p.types, n.form ∈ memberForms ∧ n.WellFormed
  endMarker : ∀ n ∈ p.endMarker, n.form = .token

/-- The same unit with an edit of the names and calls in its types. -/
def mapTypes (f : Node → Node) (p : UnitParts) : UnitParts := { p with types := p.types.map f }

/-- The same unit but for its imports and, if it has no package, the trivia before its first type. -/
structure Reimports (p q : UnitParts) : Prop where
  package : q.package = p.package
  types : Refronts p.types q.types
  kept : p.package ≠ none → q.types = p.types
  endMarker : q.endMarker = p.endMarker

namespace Reimports

variable {p q r : UnitParts}

theorem refl (p : UnitParts) : Reimports p p := ⟨rfl, .refl _, fun _ => rfl, rfl⟩

theorem trans (h : Reimports p q) (h' : Reimports q r) : Reimports p r where
  package := h'.package.trans h.package
  types := h.types.trans h'.types
  kept hPackage := (h'.kept (h.package ▸ hPackage)).trans (h.kept hPackage)
  endMarker := h'.endMarker.trans h.endMarker

theorem mapTypes {f : Node → Node} (hf : Node.EditsLeaves f) (h : Reimports p q) (hp : p.Formed) :
    Reimports (p.mapTypes (Node.mapLeaves f)) (q.mapTypes (Node.mapLeaves f)) where
  package := h.package
  types := h.types.mapLeaves hf fun n hn => (hp.types n hn).2
  kept hPackage := congrArg (List.map _) (h.kept hPackage)
  endMarker := h.endMarker

end Reimports

/-- A refronted list of well-formed members is one. -/
theorem members_of_refronts {ns ms : List Node} (h : Refronts ns ms)
    (hns : ∀ n ∈ ns, n.form ∈ memberForms ∧ n.WellFormed) :
    ∀ n ∈ ms, n.form ∈ memberForms ∧ n.WellFormed := by
  intro m hm
  obtain ⟨n, hn, l, rfl⟩ := h.exists_of_mem hm
  obtain ⟨hForm, hFine⟩ := hns n hn
  exact ⟨by simpa using hForm, hFine.withLeading l⟩

namespace Formed

variable {p q : UnitParts}

theorem reimports (hp : p.Formed) (h : Reimports p q)
    (hImports : ∀ n ∈ q.imports, n.form = .importDeclaration ∧ n.WellFormed) : q.Formed where
  package := h.package ▸ hp.package
  imports := hImports
  types := members_of_refronts h.types hp.types
  endMarker := h.endMarker ▸ hp.endMarker

theorem mapTypes {f : Node → Node} (hf : Node.EditsLeaves f) (hp : p.Formed) :
    (p.mapTypes (Node.mapLeaves f)).Formed where
  package := hp.package
  imports := hp.imports
  types n hn := by
    obtain ⟨m, hm, rfl⟩ := List.mem_map.mp hn
    exact ⟨by rw [Node.form_mapLeaves hf]; exact (hp.types m hm).1,
      Node.wellFormed_mapLeaves hf (hp.types m hm).2⟩
  endMarker := hp.endMarker

end Formed

/-- The parts of a well-formed unit. -/
theorem formed_of_wellFormed {cs : List (Field × Node)} (h : (Node.branch .unit cs).WellFormed) :
    (Node.branch .unit cs).unitParts.Formed where
  package n hn := by
    have hMem : n ∈ filed .package cs := List.mem_of_head? hn
    obtain ⟨hForms, hFine⟩ := (h.fieldwise.2 ⟨.package, .optional, [.packageDeclaration]⟩
      (by simp [NodeKind.slots])).2 n hMem
    exact ⟨List.mem_singleton.mp hForms, hFine⟩
  imports n hn := by
    have hSlot : ⟨.imports, .many, [.importDeclaration]⟩ ∈ NodeKind.unit.slots := by
      simp [NodeKind.slots]
    obtain ⟨hForms, hFine⟩ := h.filed_many hSlot n hn
    exact ⟨List.mem_singleton.mp hForms, hFine⟩
  types := h.filed_many (by simp [NodeKind.slots])
  endMarker n hn := List.mem_singleton.mp ((h.fieldwise.2 ⟨.endMarker, .one, [.token]⟩
    (by simp [NodeKind.slots])).2 n hn).1

namespace Sound

variable {p q : UnitParts}

theorem formed (hp : p.Sound) : p.Formed where
  package n hn := ⟨(hp.package n hn).1, (hp.package n hn).2.1⟩
  imports := hp.imports
  types := hp.types
  endMarker := hp.endMarker

/-- With its package, a unit keeps its soundness. -/
theorem of_formed (hp : p.Sound) (hq : q.Formed) (hPackage : q.package = p.package) : q.Sound where
  package := hPackage ▸ hp.package
  imports := hq.imports
  types := hq.types
  endMarker := hq.endMarker

theorem mapTypes {f : Node → Node} (hf : Node.EditsLeaves f) (hp : p.Sound) :
    (p.mapTypes (Node.mapLeaves f)).Sound :=
  hp.of_formed (hp.formed.mapTypes hf) rfl

end Sound

-- ---------------------------------------------------------------------------
-- Replacing names and calls
-- ---------------------------------------------------------------------------

/-- Replacing names and calls in a unit is an edit of its types, where nothing is replaced before. -/
theorem replaceAll_toUnit {p : UnitParts} (hp : p.Formed) {skip : NodeKind → Bool}
    {f : Node → Option Node} (hf : Node.OnlyLeaves f) (hUnit : skip .unit = false)
    (hSkip : ∀ k : NodeKind, k.form ∉ Node.headerForms → skip k = false)
    (hPackage : ∀ n ∈ p.package, (n.replaceAll skip f).1 = n)
    (hImports : ∀ n ∈ p.imports, (n.replaceAll skip f).1 = n) :
    (p.toUnit.replaceAll skip f).1 =
      (p.mapTypes (Node.mapLeaves fun m => (f m).getD m)).toUnit := by
  have hSame {g : Field} {ns : List Node} (h : ∀ n ∈ ns, (n.replaceAll skip f).1 = n) :
      (ns.map fun n => (g, n)).map (fun c => (c.1, (c.2.replaceAll skip f).1)) =
        ns.map fun n => (g, n) := by
    rw [List.map_map]
    exact List.map_congr_left fun n hn => by simp [h n hn]
  have hTypes : (p.types.map fun n => (Field.types, n)).map
        (fun c => (c.1, (c.2.replaceAll skip f).1)) =
      (p.types.map (Node.mapLeaves fun m => (f m).getD m)).map fun n => (Field.types, n) := by
    rw [List.map_map, List.map_map]
    refine List.map_congr_left fun n hn => ?_
    have hForm : n.form ∉ Node.headerForms := by
      have := (hp.types n hn).1
      revert this
      cases n.form <;> simp [memberForms, Node.headerForms]
    simp [Node.replaceAll_leaves hf hSkip (hp.types n hn).2 hForm]
  have hEnd : ∀ n ∈ p.endMarker, (n.replaceAll skip f).1 = n := by
    intro n hn
    obtain ⟨t, rfl⟩ := Node.exists_token_of_form (hp.endMarker n hn)
    exact Node.replaceAll_token skip (hf.token t)
  have hFront : ∀ n ∈ p.package.toList, (n.replaceAll skip f).1 = n := by
    intro n hn
    exact hPackage n (Option.mem_toList.mp hn)
  unfold toUnit
  rw [Node.replaceAll_branch (hf.branch _ _ rfl), hUnit]
  simp only [Bool.false_eq_true, if_false, List.map_append, hSame hImports, hTypes, hSame hEnd,
    hSame hFront, mapTypes]

end UnitParts

-- ---------------------------------------------------------------------------
-- Adding and removing imports
-- ---------------------------------------------------------------------------

namespace Imports

/-- A single-type import is well-formed. -/
theorem import_importOf (t : TypeName) (l : String) :
    (Node.importOf t l).form = .importDeclaration ∧ (Node.importOf t l).WellFormed := by
  refine ⟨rfl, .branch ?_ ?_⟩
  · refine .single (s := ⟨.keyword, .one, [.token]⟩) (by simp) (by simp [Node.form]) ?_
    refine .skip (by simp) ?_
    refine .single (s := ⟨.name, .one, [.name]⟩) (by simp)
      (by simp [Node.ofDotted, Node.form, NodeKind.form]) ?_
    refine .skip (by simp) ?_
    exact .single (s := ⟨.semicolon, .one, [.token]⟩) (by simp) (by simp [Node.form]) (.refl [])
  · intro c hc
    simp only [List.mem_cons, List.not_mem_nil, or_false] at hc
    rcases hc with rfl | rfl | rfl
    · exact .token _
    · exact Node.wellFormed_ofDotted _ _ _
    · exact .token _

variable {p q : UnitParts} {t : TypeName} {newline : String} {front back : List Node} {imp : Node}

theorem Adds.reimports (h : Adds newline t p q) : p.Reimports q := by
  cases h with
  | before | behind | alone => exact ⟨rfl, .refl _, fun _ => rfl, rfl⟩
  | first hImports hPackage hTypes =>
    exact ⟨rfl, hTypes ▸ .cons _ _ _, fun hSome => absurd hPackage hSome, rfl⟩

/-- What is true of imports, whatever stands before them, and of a new one is true of all when the new
one has come. -/
theorem Adds.imports {P : Node → Prop} (h : Adds newline t p q)
    (hLeading : ∀ n l, P n → P (n.withLeading l)) (hNew : ∀ l, P (Node.importOf t l))
    (hp : ∀ n ∈ p.imports, P n) : ∀ n ∈ q.imports, P n := by
  cases h with
  | before hImports =>
    rw [hImports, List.forall_mem_append, List.forall_mem_cons] at hp
    obtain ⟨hFront, hNext, hBack⟩ := hp
    simp only [List.forall_mem_append, List.forall_mem_cons]
    exact ⟨hFront, hNew _, hLeading _ _ hNext, hBack⟩
  | behind hImports =>
    rw [hImports, List.forall_mem_append, List.forall_mem_cons] at hp
    obtain ⟨hFront, hLast, hBack⟩ := hp
    simp only [List.forall_mem_append, List.forall_mem_cons]
    exact ⟨hFront, hLast, hNew _, hBack⟩
  | alone => simpa using hNew _
  | first => simpa using hNew _

theorem Drops.reimports (h : Drops imp p front back q) : p.Reimports q := by
  cases h with
  | closed | handed => exact ⟨rfl, .refl _, fun _ => rfl, rfl⟩
  | first hPackage hTypes =>
    exact ⟨rfl, hTypes ▸ .cons _ _ _, fun hSome => absurd hPackage hSome, rfl⟩

/-- What is true of imports, whatever stands before them, is true of those that are left. -/
theorem Drops.imports {P : Node → Prop} (h : Drops imp p front back q)
    (hImports : p.imports = front ++ imp :: back) (hLeading : ∀ n l, P n → P (n.withLeading l))
    (hp : ∀ n ∈ p.imports, P n) : ∀ n ∈ q.imports, P n := by
  rw [hImports, List.forall_mem_append, List.forall_mem_cons] at hp
  obtain ⟨hFront, -, hBack⟩ := hp
  cases h with
  | closed => exact List.forall_mem_append.mpr ⟨hFront, hBack⟩
  | handed front rest hNone =>
    obtain ⟨hNext, hRest⟩ := List.forall_mem_cons.mp hBack
    exact List.forall_mem_append.mpr ⟨hFront, List.forall_mem_cons.mpr ⟨hLeading _ _ hNext, hRest⟩⟩
  | first => simp

/-- Adding an import touches the imports and, where nothing stands before the first type, the trivia
before that. -/
theorem formed_add (hp : p.Formed) (t : TypeName) :
    ∃ q : UnitParts, (add p.toUnit t).unit = q.toUnit ∧ q.Formed ∧ p.Reimports q := by
  obtain ⟨q, hq, rfl | hAdds⟩ := exists_add p t
  · exact ⟨q, hq, hp, .refl q⟩
  · have hImports := hAdds.imports (fun n l hn => ⟨by simpa using hn.1, hn.2.withLeading l⟩)
      (import_importOf t) hp.imports
    exact ⟨q, hq, hp.reimports hAdds.reimports hImports, hAdds.reimports⟩

/-- Removing an import touches no more. -/
theorem formed_remove (hp : p.Formed) (t : TypeName) :
    ∃ q : UnitParts, (remove p.toUnit t).unit = q.toUnit ∧ q.Formed ∧ p.Reimports q := by
  obtain ⟨q, hq, rfl | ⟨front, imp, back, hSplit, -, hDrops⟩⟩ := exists_remove p t
  · exact ⟨q, hq, hp, .refl q⟩
  · have hImports := hDrops.imports hSplit
      (fun n l hn => ⟨by simpa using hn.1, hn.2.withLeading l⟩) hp.imports
    exact ⟨q, hq, hp.reimports hDrops.reimports hImports, hDrops.reimports⟩

theorem reimports_add (hp : p.Sound) (t : TypeName) :
    ∃ q : UnitParts, (add p.toUnit t).unit = q.toUnit ∧ q.Sound ∧ p.Reimports q := by
  obtain ⟨q, hq, hFormed, hFront⟩ := formed_add hp.formed t
  exact ⟨q, hq, hp.of_formed hFormed hFront.package, hFront⟩

theorem reimports_remove (hp : p.Sound) (t : TypeName) :
    ∃ q : UnitParts, (remove p.toUnit t).unit = q.toUnit ∧ q.Sound ∧ p.Reimports q := by
  obtain ⟨q, hq, hFormed, hFront⟩ := formed_remove hp.formed t
  exact ⟨q, hq, hp.of_formed hFormed hFront.package, hFront⟩

end Imports

-- ---------------------------------------------------------------------------
-- Passes
-- ---------------------------------------------------------------------------

/-- Imports are made of names and tokens. -/
theorem UnitParts.Sound.form_walk_import {p : UnitParts} (hp : p.Sound) {n : Node}
    (hn : n ∈ p.imports) : ∀ m ∈ n.walk, m.form ∈ [Form.importDeclaration, .name, .token] := by
  obtain ⟨hForm, hFine⟩ := hp.imports n hn
  refine hFine.form_walk ?_ (by simp [hForm])
  intro k hk s hs form hIn
  cases k <;> simp_all [NodeKind.form, NodeKind.slots]
  all_goals rcases hs with rfl | rfl | rfl | rfl | rfl <;> simp_all

namespace Pass

variable {p : UnitParts}

/-- What a pass does to each type of a unit. -/
def onType : Pass → Node → Node
  | .renameMethod pattern newName => Node.mapLeaves (renamedCall pattern newName)
  | .changeType old new => fun n =>
    (n.mapLeaves (retypedName old new)).mapLeaves (retypedCall old new)
  | .addImport _ => id
  | .removeImport _ => id

theorem renameCalls_toUnit (hp : p.Sound) (pattern : MethodPattern) (newName : String) :
    (renameCalls pattern newName p.toUnit).1 =
      (p.mapTypes (Node.mapLeaves (renamedCall pattern newName))).toUnit := by
  refine UnitParts.replaceAll_toUnit hp.formed (onlyLeaves_rename pattern newName) rfl
    (fun _ _ => rfl) ?_ ?_
  · intro n hn
    refine Node.replaceAll_eq_self fun m hm => ?_
    cases (hp.package n hn).2.2.walk m hm with
    | token t => rfl
    | @branch k cs hKind _ =>
      cases k with
      | call method =>
        cases method with
        | none => rfl
        | some _ => cases hKind
      | _ => rfl
  · intro n hn
    refine Node.replaceAll_eq_self fun m hm => ?_
    have hForm := hp.form_walk_import hn m hm
    cases m with
    | token t => rfl
    | branch k cs =>
      cases k with
      | call _ => simp [Node.form, NodeKind.form] at hForm
      | _ => rfl

/-- Headers are skipped when types are changed. -/
theorem replaceAll_header {f : Node → Option Node} (hf : Node.OnlyLeaves f) {n : Node}
    (hForm : n.form = .packageDeclaration ∨ n.form = .importDeclaration) :
    n.replaceAll isHeaderKind f = (n, 0) := by
  cases n with
  | token t => rcases hForm with h | h <;> cases h
  | branch k cs =>
    rcases hForm with hForm | hForm
    · obtain rfl : k = .packageDeclaration := by cases k <;> cases hForm; rfl
      simp [Node.replaceAll, hf.branch .packageDeclaration cs rfl, isHeaderKind]
    · obtain rfl : k = .importDeclaration := by cases k <;> cases hForm; rfl
      simp [Node.replaceAll, hf.branch .importDeclaration cs rfl, isHeaderKind]

theorem changeTypes_toUnit (hp : p.Formed) (old new : TypeName) :
    (changeTypes old new p.toUnit).1 = (p.mapTypes (onType (.changeType old new))).toUnit := by
  have hReplace {f : Node → Option Node} (hf : Node.OnlyLeaves f) {q : UnitParts} (hq : q.Formed) :
      (q.toUnit.replaceAll isHeaderKind f).1 =
        (q.mapTypes (Node.mapLeaves fun m => (f m).getD m)).toUnit := by
    refine UnitParts.replaceAll_toUnit hq hf rfl ?_ ?_ ?_
    · intro k hk
      cases k <;> first | rfl | simp [NodeKind.form, Node.headerForms] at hk
    · exact fun n hn => congrArg Prod.fst (replaceAll_header hf (Or.inl (hq.package n hn).1))
    · exact fun n hn => congrArg Prod.fst (replaceAll_header hf (Or.inr (hq.imports n hn).1))
  have hNames : (p.toUnit.replaceAll isHeaderKind (changeName? old new)).1 =
      (p.mapTypes (Node.mapLeaves (retypedName old new))).toUnit :=
    hReplace (onlyLeaves_name old new) hp
  have hCalls := hReplace (onlyLeaves_method old new) (hp.mapTypes (editsLeaves_name old new))
  unfold changeTypes
  simp only
  rw [hNames, hCalls]
  simp only [UnitParts.mapTypes, List.map_map]
  rfl

theorem formed_onType (pass : Pass) (hp : p.Formed) : (p.mapTypes pass.onType).Formed := by
  have hSame : p.mapTypes id = p := by simp [UnitParts.mapTypes]
  cases pass with
  | renameMethod pattern newName => exact hp.mapTypes (editsLeaves_rename pattern newName)
  | changeType old new =>
    have := (hp.mapTypes (editsLeaves_name old new)).mapTypes (editsLeaves_method old new)
    simpa [UnitParts.mapTypes, onType, Function.comp_def] using this
  | addImport t =>
    rw [onType, hSame]
    exact hp
  | removeImport t =>
    rw [onType, hSame]
    exact hp

theorem sound_onType (pass : Pass) (hp : p.Sound) : (p.mapTypes pass.onType).Sound :=
  hp.of_formed (formed_onType pass hp.formed) rfl

/-- What a pass does to a unit: the same to each of its types, and something to its imports. -/
theorem run_toUnit (pass : Pass) (hp : p.Sound) (j : Journal) :
    ∃ q : UnitParts, (pass.run p.toUnit j).1.node = q.toUnit ∧ q.Sound ∧
      (p.mapTypes pass.onType).Reimports q := by
  have hSame : p.mapTypes id = p := by simp [UnitParts.mapTypes]
  cases pass with
  | renameMethod pattern newName =>
    exact ⟨_, renameCalls_toUnit hp pattern newName,
      hp.mapTypes (editsLeaves_rename pattern newName), .refl _⟩
  | addImport t =>
    rw [onType, hSame]
    exact Imports.reimports_add hp t
  | removeImport t =>
    rw [onType, hSame]
    exact Imports.reimports_remove hp t
  | changeType old new =>
    obtain ⟨q, hq, hqSound, hqFront⟩ :=
      Imports.reimports_remove (sound_onType (.changeType old new) hp) old
    obtain ⟨r, hr, hrSound, hrFront⟩ := Imports.reimports_add hqSound new
    refine ⟨r, ?_, hrSound, hqFront.trans hrFront⟩
    simp only [run, runAdd, runRemove, changeTypes_toUnit hp.formed, hq, hr]

/-- What each of some passes keeps, all of them one after another keep. -/
theorem runAll_induct {P : UnitParts → Prop} {passes : List Pass}
    (hStep : ∀ pass ∈ passes, ∀ (p : UnitParts) (j : Journal), p.Sound → P p →
      ∃ q : UnitParts, (pass.run p.toUnit j).1.node = q.toUnit ∧ q.Sound ∧ P q)
    (hp : p.Sound) (h : P p) (changed : Bool) (j : Journal) :
    ∃ q : UnitParts, (Queue.runAll passes ⟨p.toUnit, changed⟩ j).1.node = q.toUnit ∧ q.Sound ∧
      P q := by
  induction passes generalizing p changed j with
  | nil => exact ⟨p, rfl, hp, h⟩
  | cons pass passes ih =>
    obtain ⟨q, hq, hqSound, hqKept⟩ := hStep pass List.mem_cons_self p
      (j.remark ["Running deferred pass: " ++ pass.describe]) hp h
    rw [Queue.runAll]
    rcases hRun : pass.run p.toUnit (j.remark ["Running deferred pass: " ++ pass.describe]) with
      ⟨⟨node, more⟩, j'⟩
    rw [hRun] at hq
    obtain rfl : node = q.toUnit := hq
    exact ih (fun pass h => hStep pass (List.mem_cons_of_mem _ h)) hqSound hqKept _ _

theorem reimports_onType (pass : Pass) {q : UnitParts} (hp : p.Sound) (h : p.Reimports q) :
    (p.mapTypes pass.onType).Reimports (q.mapTypes pass.onType) := by
  cases pass with
  | renameMethod pattern newName => exact h.mapTypes (editsLeaves_rename pattern newName) hp.formed
  | changeType old new =>
    have hNames := h.mapTypes (editsLeaves_name old new) hp.formed
    have := hNames.mapTypes (editsLeaves_method old new)
      (hp.formed.mapTypes (editsLeaves_name old new))
    simpa [UnitParts.mapTypes, onType, Function.comp_def] using this
  | addImport t => simpa [UnitParts.mapTypes, onType] using h
  | removeImport t => simpa [UnitParts.mapTypes, onType] using h

/-- What several passes do to each type of a unit. -/
def onTypes : List Pass → Node → Node
  | [], n => n
  | pass :: passes, n => onTypes passes (pass.onType n)

theorem mapTypes_onTypes_nil (p : UnitParts) : p.mapTypes (onTypes []) = p := by
  have hId : onTypes [] = id := rfl
  rw [hId, UnitParts.mapTypes, List.map_id]

theorem mapTypes_onTypes_cons (pass : Pass) (passes : List Pass) (p : UnitParts) :
    p.mapTypes (onTypes (pass :: passes)) = (p.mapTypes pass.onType).mapTypes (onTypes passes) := by
  simp only [UnitParts.mapTypes, List.map_map]
  rfl

theorem reimports_onTypes (passes : List Pass) {q : UnitParts} (hp : p.Sound)
    (h : p.Reimports q) :
    (p.mapTypes (onTypes passes)).Reimports (q.mapTypes (onTypes passes)) := by
  induction passes generalizing p q with
  | nil =>
    rw [mapTypes_onTypes_nil, mapTypes_onTypes_nil]
    exact h
  | cons pass passes ih =>
    rw [mapTypes_onTypes_cons, mapTypes_onTypes_cons]
    exact ih (sound_onType pass hp) (reimports_onType pass hp h)

/-- What passes one after another do to a unit: all of them to each type, in order. -/
theorem runAll_toUnit (passes : List Pass) (hp : p.Sound) (changed : Bool) (j : Journal) :
    ∃ q : UnitParts, (Queue.runAll passes ⟨p.toUnit, changed⟩ j).1.node = q.toUnit ∧ q.Sound ∧
      (p.mapTypes (onTypes passes)).Reimports q := by
  induction passes generalizing p changed j with
  | nil =>
    rw [mapTypes_onTypes_nil]
    exact ⟨p, rfl, hp, .refl p⟩
  | cons pass passes ih =>
    obtain ⟨q, hq, hqSound, hqFront⟩ :=
      run_toUnit pass hp (j.remark ["Running deferred pass: " ++ pass.describe])
    rw [Queue.runAll]
    rcases hRun : pass.run p.toUnit (j.remark ["Running deferred pass: " ++ pass.describe]) with
      ⟨⟨node, more⟩, j'⟩
    rw [hRun] at hq
    obtain rfl : node = q.toUnit := hq
    obtain ⟨r, hr, hrSound, hrFront⟩ := ih hqSound (changed || more)
      (j'.log (·.executed pass.describe more))
    refine ⟨r, hr, hrSound, ?_⟩
    rw [mapTypes_onTypes_cons]
    exact (reimports_onTypes passes (sound_onType pass hp) hqFront).trans hrFront

end Pass

end SourceMigration
