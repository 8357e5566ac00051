import SourceMigration.Editing.Template
import SourceMigration.Proofs.Editing.Members
import SourceMigration.Proofs.Editing.Passes
import SourceMigration.Proofs.Parsing.Types

/-!
# SourceMigration — edits keep trees sturdy

A name that is respelled for another type is made of the spelling of that type, full or simple. A
call keeps its form, and so does a method with another name. Imports come and go, and trivia move.
The tree of a template has names that spell the types they are bound to. So each edit of a sturdy
tree gives a sturdy tree.

## Results

* `sturdy_settled`      — what the member table leaves of some members.
* `sturdy_add`, `sturdy_remove` — a unit with one import more or less.
* `sturdy_run`          — a unit after a pass.
* `sturdy_instantiate`  — the tree of a template.
-/

namespace SourceMigration

-- ---------------------------------------------------------------------------
-- Members
-- ---------------------------------------------------------------------------

/-- A renamed method has children in the fields in which it had some. -/
theorem Node.Sturdy.renamed {front back : List (Field × Node)} {t u : Token}
    (h : Sturdy (.branch .method (front ++ (.name, .token t) :: back))) :
    Sturdy (.branch .method (front ++ (.name, .token u) :: back)) := by
  refine .plain (by simp [NodeKind.form]) (by simpa [tag, form] using h.wellFormed.fills) ?_
    fun c hc => ?_
  · have hCount := h.intact
    simpa [NodeKind.Intact, filed_cons] using hCount
  · simp only [List.mem_append, List.mem_cons] at hc
    rcases hc with hc | rfl | hc
    · exact h.child (List.mem_append_left _ hc)
    · exact .token u
    · exact h.child (List.mem_append_right _ (List.mem_cons_of_mem _ hc))

namespace MemberTable

variable (table : MemberTable)

/-- What is left of some sturdy members are sturdy members. -/
theorem sturdy_settled {ms : List Node} (h : ∀ m ∈ ms, m.form ∈ memberForms ∧ m.Sturdy) :
    ∀ n ∈ table.settled ms, n.form ∈ memberForms ∧ n.Sturdy := by
  intro n hn
  have hFine : ∀ m ∈ ms, m.form ∈ memberForms ∧ m.WellFormed :=
    fun m hm => (h m hm).imp_right Node.Sturdy.wellFormed
  refine ⟨(table.settled_members hFine n hn).1, ?_⟩
  obtain ⟨m, hm, s, l, hOutcome, rfl⟩ := table.exists_outcome_of_settled hn
  obtain ⟨-, hSturdy⟩ := h m hm
  refine Node.Sturdy.withLeading ?_ l
  cases hDecide : table.decide m with
  | keep =>
    rw [outcome, hDecide] at hOutcome
    exact Option.some.inj hOutcome ▸ hSturdy
  | drop =>
    rw [outcome, hDecide] at hOutcome
    cases hOutcome
  | rename new =>
    obtain ⟨front, t, back, rfl, -, hRenamed⟩ :=
      table.outcome_of_rename hSturdy.wellFormed hDecide
    obtain rfl := Option.some.inj (hRenamed.symm.trans hOutcome)
    exact hSturdy.renamed

end MemberTable

-- ---------------------------------------------------------------------------
-- Imports
-- ---------------------------------------------------------------------------

namespace Imports

/-- A new import is spelled by what it names. -/
theorem sturdy_importOf (t : TypeName) (l : String) : (Node.importOf t l).Sturdy := by
  refine .plain (by simp [NodeKind.form]) (import_importOf t l).2.fills trivial fun c hc => ?_
  simp only [List.mem_cons, List.not_mem_nil, or_false] at hc
  rcases hc with rfl | rfl | rfl
  · exact .token _
  · exact Node.sturdy_ofDotted " " (by rintro u ⟨⟩; exact Or.inl rfl)
  · exact .token _

/-- What is asked of each import of a sturdy unit. -/
theorem import_withLeading (n : Node) (l : String) (h : n.form = .importDeclaration ∧ n.Sturdy) :
    (n.withLeading l).form = .importDeclaration ∧ (n.withLeading l).Sturdy :=
  ⟨by simpa using h.1, h.2.withLeading l⟩

theorem import_new (t : TypeName) (l : String) :
    (Node.importOf t l).form = .importDeclaration ∧ (Node.importOf t l).Sturdy :=
  ⟨rfl, sturdy_importOf t l⟩

variable {p : UnitParts}

theorem sturdy_imports (hp : p.Sturdy) {imports : List Node}
    (hImports : ∀ n ∈ imports, n.form = .importDeclaration ∧ n.Sturdy) :
    UnitParts.Sturdy { p with imports } := ⟨hp.package, hImports, hp.types, hp.endMarker⟩

/-- Other trivia before the first type. -/
theorem sturdy_front (hp : p.Sturdy) {first : Node} {rest : List Node}
    (hTypes : p.types = first :: rest) (l : String) :
    UnitParts.Sturdy { p with types := first.withLeading l :: rest } := by
  refine ⟨hp.package, hp.imports, ?_, hp.endMarker⟩
  have hAll := hp.types
  rw [hTypes] at hAll
  obtain ⟨⟨hForm, hFirst⟩, hRest⟩ := List.forall_mem_cons.mp hAll
  exact List.forall_mem_cons.mpr ⟨⟨by simpa using hForm, hFirst.withLeading l⟩, hRest⟩

/-- A unit with one import more is sturdy. -/
theorem sturdy_add {unit : Node} (h : unit.Sturdy) (hForm : unit.form = .unit) (t : TypeName) :
    (add unit t).unit.form = .unit ∧ (add unit t).unit.Sturdy := by
  obtain ⟨p, hp, rfl⟩ : ∃ p : UnitParts, p.Sturdy ∧ p.toUnit = unit :=
    ⟨_, UnitParts.sturdy_unitParts h hForm⟩
  obtain ⟨q, hq, rfl | hAdds⟩ := exists_add p t
  · rw [hq]
    exact ⟨rfl, hp.toUnit⟩
  have hImports := hAdds.imports import_withLeading (import_new t) hp.imports
  rw [hq]
  refine ⟨rfl, UnitParts.Sturdy.toUnit ?_⟩
  cases hAdds with
  | before | behind | alone => exact sturdy_imports hp hImports
  | first _ _ hTypes => exact sturdy_imports (sturdy_front hp hTypes _) hImports

/-- A unit with one import less is sturdy. -/
theorem sturdy_remove {unit : Node} (h : unit.Sturdy) (hForm : unit.form = .unit) (t : TypeName) :
    (remove unit t).unit.form = .unit ∧ (remove unit t).unit.Sturdy := by
  obtain ⟨p, hp, rfl⟩ : ∃ p : UnitParts, p.Sturdy ∧ p.toUnit = unit :=
    ⟨_, UnitParts.sturdy_unitParts h hForm⟩
  obtain ⟨q, hq, rfl | ⟨front, imp, back, hSplit, -, hDrops⟩⟩ := exists_remove p t
  · rw [hq]
    exact ⟨rfl, hp.toUnit⟩
  have hImports := hDrops.imports hSplit import_withLeading hp.imports
  rw [hq]
  refine ⟨rfl, UnitParts.Sturdy.toUnit ?_⟩
  cases hDrops with
  | closed | handed => exact sturdy_imports hp hImports
  | first _ hTypes => exact sturdy_imports (sturdy_front hp hTypes _) hImports

end Imports

-- ---------------------------------------------------------------------------
-- Passes
-- ---------------------------------------------------------------------------

namespace Pass

theorem sturdy_renameCall {pattern : MethodPattern} {newName : String} {n m : Node} (h : n.Sturdy)
    (hNew : renameCall? pattern newName n = some m) : m.form = n.form ∧ m.Sturdy := by
  cases n with
  | token t => cases hNew
  | branch k cs =>
    cases k with
    | call c =>
      obtain ⟨t, rfl⟩ := h.wellFormed.exists_callee
      have hCall := renamedCall_call pattern newName c t
      rw [renamedCall, hNew, Option.getD_some] at hCall
      rw [hCall]
      refine ⟨rfl, .plain (by simp [NodeKind.form]) (Node.wellFormed_call _ _).fills trivial ?_⟩
      simpa using .token _
    | _ => cases hNew

theorem sturdy_changeName {old new : TypeName} {n m : Node}
    (hNew : changeName? old new n = some m) : m.form = n.form ∧ m.Sturdy := by
  unfold changeName? at hNew
  split at hNew
  · rw [Option.ite_none_right_eq_some] at hNew
    obtain rfl := Option.some.inj hNew.2
    refine ⟨rfl, Node.sturdy_ofDotted _ ?_⟩
    rintro u ⟨⟩
    split
    · exact Or.inl rfl
    · exact new.spelledBy_simple
  · cases hNew

theorem sturdy_changeMethod {old new : TypeName} {n m : Node} (h : n.Sturdy)
    (hNew : changeMethod? old new n = some m) : m.form = n.form ∧ m.Sturdy := by
  cases n with
  | token t => cases hNew
  | branch k cs =>
    cases k with
    | call c =>
      have hCall := retypedCall_call old new c cs
      rw [retypedCall, hNew, Option.getD_some] at hCall
      rw [hCall]
      exact ⟨rfl, h.recall _⟩
    | _ => cases hNew

/-- A unit is sturdy after one type has come in the place of another. -/
theorem sturdy_changeTypes (old new : TypeName) {unit : Node} (h : unit.Sturdy) :
    (changeTypes old new unit).1.form = unit.form ∧ (changeTypes old new unit).1.Sturdy := by
  obtain ⟨hNameForm, hNames⟩ := Node.sturdy_replaceAll isHeaderKind
    (f := changeName? old new) (fun _ => rfl) (fun _ _ _ => sturdy_changeName) h
  obtain ⟨hCallForm, hCalls⟩ := Node.sturdy_replaceAll isHeaderKind
    (f := changeMethod? old new) (fun _ => rfl) (fun _ _ => sturdy_changeMethod) hNames
  exact ⟨hCallForm.trans hNameForm, hCalls⟩

/-- A unit is sturdy after a pass. -/
theorem sturdy_run {unit : Node} (h : unit.Sturdy) (hForm : unit.form = .unit) (pass : Pass)
    (j : Journal) : (pass.run unit j).1.node.form = .unit ∧ (pass.run unit j).1.node.Sturdy := by
  cases pass with
  | renameMethod pattern newName =>
    obtain ⟨hSame, hSturdy⟩ := Node.sturdy_replaceAll (fun _ => false)
      (f := renameCall? pattern newName) (fun _ => rfl) (fun _ _ => sturdy_renameCall) h
    exact ⟨hSame.trans hForm, hSturdy⟩
  | addImport t => exact Imports.sturdy_add h hForm t
  | removeImport t => exact Imports.sturdy_remove h hForm t
  | changeType old new =>
    obtain ⟨hSame, hChanged⟩ := sturdy_changeTypes old new h
    obtain ⟨hRemovedForm, hRemoved⟩ := Imports.sturdy_remove hChanged (hSame.trans hForm) old
    exact Imports.sturdy_add hRemoved hRemovedForm new

end Pass

-- ---------------------------------------------------------------------------
-- Templates
-- ---------------------------------------------------------------------------

namespace Template

/-- A name stands for a type that it spells. -/
theorem spelledBy_of_meaning {bound : List TypeName} {name : Node} {t : TypeName}
    (h : meaning? bound name = some t) : t.SpelledBy name.dottedName := by
  unfold meaning? at h
  split at h
  · rename_i simple hParts
    obtain rfl : t.simple = simple := by simpa using List.find?_some h
    rw [Node.dottedName, hParts]
    simpa [Text.joinDots] using t.spelledBy_simple
  · exact Or.inl (by simpa using List.find?_some h)

theorem sturdy_bindName {bound : List TypeName} {n m : Node} (h : n.Sturdy)
    (hNew : bindName? bound n = some m) : m.form = n.form ∧ m.Sturdy := by
  unfold bindName? at hNew
  split at hNew
  · obtain ⟨t, ht, rfl⟩ := Option.map_eq_some_iff.mp hNew
    obtain ⟨ts, rfl, hChain, -⟩ := h.exists_chain
    refine ⟨rfl, Node.sturdy_nameOf hChain ?_⟩
    rintro u ⟨⟩
    exact spelledBy_of_meaning ht
  · cases hNew

/-- The tree of a template is sturdy, and a type that a class can extend. -/
theorem sturdy_instantiate [TreeSitter] [LawfulTreeSitter] {template : String} {types : List TypeName}
    {tree : Node} (h : instantiate template types = .ok tree) :
    tree.form ∈ [Form.name, .parameterized] ∧ tree.Sturdy := by
  unfold instantiate at h
  cases hBound : bindings [] types with
  | error why =>
    rw [hBound] at h
    cases h
  | ok bound =>
    rw [hBound] at h
    cases hParse : Parsing.parseType (Text.strip template) with
    | error why =>
      simp only [hParse] at h
      cases h
    | ok plain =>
      obtain ⟨hForm, hPlain, -⟩ := (Parsing.parseType_eq_ok_iff.mp hParse).printed
      obtain ⟨hSame, hSturdy⟩ := Node.sturdy_replaceAll (fun _ => false)
        (f := bindName? bound) (fun _ => rfl) (fun _ _ => sturdy_bindName) hPlain
      simp only [hParse, bind, Except.bind] at h
      split at h
      · cases h
      · split at h
        · cases h
        · obtain rfl := Except.ok.inj h
          exact ⟨by simpa [hSame] using hForm, hSturdy.withLeading ""⟩

end Template

end SourceMigration
