import SourceMigration.Proofs.Editing.Fronts
import SourceMigration.Proofs.Editing.Members
import SourceMigration.Proofs.Tree.Each

/-!
# SourceMigration — edits and what is true of every token

What the member table and the passes do to the tokens of a tree: members go or get another name and the
first of the rest takes other blanks, calls and names are spelled anew, imports come and go and hand
trivia on. A durable property is true of every token afterwards, if the words that are written have what it
asks of spellings, and the line ends that come with an import what it asks of trivia.

## Results

* `each_settled` — the members that are left.
* `each_onType`  — the part of a pass that edits names and calls.
* `each_add`, `each_remove` — an import that comes or goes.
-/

namespace SourceMigration

variable {P : Token → Prop} {L W : String → Prop}

-- ---------------------------------------------------------------------------
-- Members
-- ---------------------------------------------------------------------------

namespace MemberTable

variable {table : MemberTable}

/-- A method gets no name but those of the table. -/
theorem exists_of_decide {m : Node} {new : String} (h : table.decide m = .rename new) :
    ∃ name, (name, new) ∈ table.rename := by
  unfold decide at h
  split at h
  · simp only at h
    split at h
    · cases h
    · split at h
      · cases h
      · split at h
        · rename_i word hLookup
          obtain rfl := MemberDecision.rename.inj h
          obtain ⟨front, back, hSplit, -⟩ := List.lookup_eq_some_iff.mp hLookup
          exact ⟨_, hSplit ▸ List.mem_append_right _ List.mem_cons_self⟩
        · cases h
  · cases h

variable (hP : Durable P L W) (hWords : ∀ e ∈ table.rename, W e.2)

include hP hWords

theorem each_outcome {m n : Node} (hFine : m.WellFormed) (hOutcome : table.outcome m = some n)
    (hEach : m.Each P) : n.Each P := by
  cases hDecide : table.decide m with
  | keep =>
    rw [outcome, hDecide] at hOutcome
    exact Option.some.inj hOutcome ▸ hEach
  | drop =>
    rw [outcome, hDecide] at hOutcome
    cases hOutcome
  | rename new =>
    obtain ⟨name, hMem⟩ := exists_of_decide hDecide
    obtain ⟨front, t, back, rfl, -, hRenamed⟩ := table.outcome_of_rename hFine hDecide
    obtain rfl := Option.some.inj (hRenamed.symm.trans hOutcome)
    simp only [Node.each_branch, List.forall_mem_append, List.forall_mem_cons, Node.each_token] at hEach ⊢
    obtain ⟨hFront, hName, hBack⟩ := hEach
    exact ⟨hFront, hP.withText hName (hWords _ hMem), hBack⟩

/-- The members that are left. -/
theorem each_settled {ms : List Node} (hFine : ∀ m ∈ ms, m.WellFormed) (hEach : ∀ m ∈ ms, m.Each P) :
    ∀ n ∈ table.settled ms, n.Each P := by
  have hOutcomes : ∀ n ∈ ms.filterMap table.outcome, n.Each P := by
    intro n hn
    obtain ⟨m, hm, hOutcome⟩ := List.mem_filterMap.mp hn
    exact each_outcome hP hWords (hFine m hm) hOutcome (hEach m hm)
  rw [settled]
  generalize ms.filterMap table.outcome = ns at hOutcomes
  cases hBlanks : ms.head?.bind table.handedOn? with
  | none => exact hOutcomes
  | some blanks =>
    cases ns with
    | nil => exact hOutcomes
    | cons n ns =>
      obtain ⟨m, hm, hHanded⟩ := Option.bind_eq_some_iff.mp hBlanks
      unfold handedOn? at hHanded
      split at hHanded
      · obtain rfl := Option.some.inj hHanded
        have hBefore := (hEach m (List.mem_of_mem_head? hm)).leading hP
        obtain ⟨hFirst, hRest⟩ := List.forall_mem_cons.mp hOutcomes
        rw [adopt, List.modifyHead_cons, List.forall_mem_cons]
        exact ⟨hFirst.refront hP (hP.respaced hBefore (hFirst.leading hP)), hRest⟩
      · cases hHanded

end MemberTable

-- ---------------------------------------------------------------------------
-- Names and calls
-- ---------------------------------------------------------------------------

namespace Pass

/-- The words that a pass writes have what is asked of a spelling. -/
def Writes (W : String → Prop) : Pass → Prop
  | .renameMethod _ newName => W newName
  | .changeType _ new =>
    (∀ part ∈ Text.splitDots new.text, W part) ∧ ∀ part ∈ Text.splitDots new.simple, W part
  | .addImport t => ∀ part ∈ Text.splitDots t.text, W part
  | .removeImport _ => True

section Leaves

variable (hP : Durable P L W)

include hP

theorem keepsEach_rename {newName : String} (hName : W newName) (pattern : MethodPattern) :
    Node.KeepsEach P (renamedCall pattern newName) := by
  intro k cs hk hFine hEach
  rcases exists_of_leaf hk hFine with ⟨t, ts, hEq⟩ | ⟨m, t, hEq⟩
  · rw [hEq] at hEach ⊢
    exact hEach
  · rw [hEq] at hEach ⊢
    simp only [Node.each_branch, List.forall_mem_cons, Node.each_token] at hEach
    simp only [renamedCall_call, Node.each_branch, List.forall_mem_cons, Node.each_token]
    refine ⟨?_, by simp⟩
    split
    · exact hP.withText hEach.1 hName
    · exact hEach.1

theorem keepsEach_name {new : TypeName} (hText : ∀ part ∈ Text.splitDots new.text, W part)
    (hSimple : ∀ part ∈ Text.splitDots new.simple, W part) (old : TypeName) :
    Node.KeepsEach P (retypedName old new) := by
  intro k cs hk hFine hEach
  rcases exists_of_leaf hk hFine with ⟨t, ts, hEq⟩ | ⟨m, t, hEq⟩
  · rw [hEq] at hEach ⊢
    unfold Node.nameOf at hEach ⊢
    rw [retypedName_name]
    split
    · refine Node.each_ofDotted hP ?_ (hEach.leading hP)
      split
      · exact hText
      · exact hSimple
    · exact hEach
  · rw [hEq] at hEach ⊢
    exact hEach

omit hP in
theorem keepsEach_method (old new : TypeName) : Node.KeepsEach P (retypedCall old new) := by
  intro k cs hk hFine hEach
  rcases exists_of_leaf hk hFine with ⟨t, ts, hEq⟩ | ⟨m, t, hEq⟩
  · rw [hEq] at hEach ⊢
    exact hEach
  · rw [hEq] at hEach ⊢
    rw [retypedCall_call, Node.each_branch]
    exact Node.each_branch.mp hEach

/-- The part of a pass that edits names and calls. -/
theorem each_onType {pass : Pass} (hPass : pass.Writes W) {n : Node} (h : n.WellFormed) (hEach : n.Each P) :
    (pass.onType n).Each P := by
  cases pass with
  | renameMethod pattern newName =>
    exact Node.each_mapLeaves (keepsEach_rename hP hPass pattern) h hEach
  | changeType old new =>
    exact Node.each_mapLeaves (keepsEach_method old new)
      (Node.wellFormed_mapLeaves (editsLeaves_name old new) h)
      (Node.each_mapLeaves (keepsEach_name hP hPass.1 hPass.2 old) h hEach)
  | addImport t => exact hEach
  | removeImport t => exact hEach

end Leaves

end Pass

-- ---------------------------------------------------------------------------
-- Units
-- ---------------------------------------------------------------------------

namespace UnitParts

/-- What stands in a unit before its end. -/
def nodes (p : UnitParts) : List Node := p.package.toList ++ (p.imports ++ p.types)

theorem tokens_toUnit (p : UnitParts) :
    p.toUnit.tokens = p.nodes.flatMap Node.tokens ++ p.endMarker.flatMap Node.tokens := by
  rw [toUnit, Node.tokens, Node.tokensOf_eq, nodes]
  simp [List.flatMap_map]

/-- Something is true of every token before the end of a unit. -/
def Each (P : Token → Prop) (p : UnitParts) : Prop := ∀ n ∈ p.nodes, n.Each P

theorem each_iff {p : UnitParts} : p.Each P ↔
    (∀ n ∈ p.package, n.Each P) ∧ (∀ n ∈ p.imports, n.Each P) ∧ ∀ n ∈ p.types, n.Each P := by
  rw [Each, nodes, List.forall_mem_append, List.forall_mem_append]
  simp only [Option.mem_toList, Option.mem_def]

/-- What is kept by an edit of the types is kept. -/
theorem Each.mapTypes {p : UnitParts} {f : Node → Node} (h : p.Each P)
    (hf : ∀ n ∈ p.types, n.Each P → (f n).Each P) : (p.mapTypes f).Each P := by
  obtain ⟨hPackage, hImports, hTypes⟩ := each_iff.mp h
  refine each_iff.mpr ⟨hPackage, hImports, fun n hn => ?_⟩
  obtain ⟨m, hm, rfl⟩ := List.mem_map.mp hn
  exact hf m hm (hTypes m hm)

end UnitParts

namespace Imports

variable {p q : UnitParts} {t : TypeName} {newline : String} (hP : Durable P L W)

include hP

/-- An import that comes, with line ends of the kind that the text uses. -/
theorem each_add (ht : ∀ part ∈ Text.splitDots t.text, W part) (hLine : L (lineEnd p.toUnit.text))
    (hLines : L (lineEnd p.toUnit.text ++ lineEnd p.toUnit.text)) (h : p.Each P)
    (hq : (add p.toUnit t).unit = q.toUnit) : q.Each P := by
  rcases add_cases hq with rfl | hAdds
  · exact h
  obtain ⟨hPackage, hAll, hTypes⟩ := UnitParts.each_iff.mp h
  cases hAdds with
  | before hImports =>
    rw [hImports, List.forall_mem_append, List.forall_mem_cons] at hAll
    obtain ⟨hFront, hNext, hBack⟩ := hAll
    refine UnitParts.each_iff.mpr ⟨hPackage, ?_, hTypes⟩
    simp only [List.forall_mem_append, List.forall_mem_cons]
    exact ⟨hFront, Node.each_importOf hP ht (hNext.leading hP), hNext.refront hP hLine, hBack⟩
  | behind hImports =>
    rw [hImports, List.forall_mem_append, List.forall_mem_cons] at hAll
    obtain ⟨hFront, hLast, hBack⟩ := hAll
    refine UnitParts.each_iff.mpr ⟨hPackage, ?_, hTypes⟩
    simp only [List.forall_mem_append, List.forall_mem_cons]
    exact ⟨hFront, hLast, Node.each_importOf hP ht hLine, hBack⟩
  | alone hImports =>
    refine UnitParts.each_iff.mpr ⟨hPackage, ?_, hTypes⟩
    simpa using Node.each_importOf hP ht hLines
  | first hImports hNone hFirst =>
    rw [hFirst, List.forall_mem_cons] at hTypes
    refine UnitParts.each_iff.mpr ⟨hPackage, ?_, ?_⟩
    · simpa using Node.each_importOf hP ht (hTypes.1.leading hP)
    · exact List.forall_mem_cons.mpr ⟨hTypes.1.refront hP hLines, hTypes.2⟩

/-- An import that goes, and hands its blanks on. -/
theorem each_remove (h : p.Each P) (hq : (remove p.toUnit t).unit = q.toUnit) : q.Each P := by
  rcases remove_cases hq with rfl | ⟨front, imp, back, hImports, -, hDrops⟩
  · exact h
  obtain ⟨hPackage, hAll, hTypes⟩ := UnitParts.each_iff.mp h
  rw [hImports, List.forall_mem_append, List.forall_mem_cons] at hAll
  obtain ⟨hFront, hImp, hBack⟩ := hAll
  cases hDrops with
  | closed =>
    exact UnitParts.each_iff.mpr ⟨hPackage, List.forall_mem_append.mpr ⟨hFront, hBack⟩, hTypes⟩
  | handed front rest hNone =>
    obtain ⟨hNext, hRest⟩ := List.forall_mem_cons.mp hBack
    refine UnitParts.each_iff.mpr ⟨hPackage, List.forall_mem_append.mpr ⟨hFront, ?_⟩, hTypes⟩
    exact List.forall_mem_cons.mpr ⟨hNext.refront hP (hP.leadingBlank (hImp.leading hP)), hRest⟩
  | first hNone hFirst =>
    rw [hFirst, List.forall_mem_cons] at hTypes
    refine UnitParts.each_iff.mpr ⟨hPackage, by simp, List.forall_mem_cons.mpr ⟨?_, hTypes.2⟩⟩
    exact hTypes.1.refront hP (hP.respaced (hImp.leading hP) (hTypes.1.leading hP))

end Imports

end SourceMigration
