import SourceMigration.Proofs.Typing.Local
import SourceMigration.Proofs.Typing.Stripped

/-!
# SourceMigration — blocks beside one another

Two runs of attribution are compared, over trees that differ in one block. What the other block declares
is recorded with the methods around both, in one list for each method, in which the last declaration of
a name counts. So nothing changes in the first block as long as the names in it are not among those
recorded for the other one, or are recorded once more in the first block itself where that stands behind
the other.

## Results

* `recorded_exchanged` — the lists of variables of both runs differ in one place.
* `siblings_apart`     — what becomes of a block does not depend on a block beside it.
-/

namespace SourceMigration

/-- What stands around a place before and after another block, in the place of another context beside
it, is exchanged. The flag tells that the exchanged block stands in front of the place within the body
of the same method or within no method, so that it is recorded before the place. -/
inductive Exchanges (old new : Node) : Bool → Context → Context → Prop where
  | ahead (k : NodeKind) (front mid back : List (Field × Node)) (g f : Field) (e c : Context) :
      Exchanges old new (k.form != .method)
        (⟨k, front ++ (g, e.fill old) :: mid, f, back⟩ :: c)
        (⟨k, front ++ (g, e.fill new) :: mid, f, back⟩ :: c)
  | behind (k : NodeKind) (front mid back : List (Field × Node)) (g f : Field) (e c : Context) :
      Exchanges old new false
        (⟨k, front, f, mid ++ (g, e.fill old) :: back⟩ :: c)
        (⟨k, front, f, mid ++ (g, e.fill new) :: back⟩ :: c)
  | within (l : Layer) {before : Bool} {c c' : Context} (h : Exchanges old new before c c') :
      Exchanges old new before (l :: c) (l :: c')

namespace Attribution

variable {old new first : Node} {before : Bool} {c c' : Context} {scope : Scope}

-- ---------------------------------------------------------------------------
-- Outside of blocks
-- ---------------------------------------------------------------------------

theorem strip_congr {k : NodeKind} {cs ds : List (Field × Node)}
    (h : cs.map (fun c => (c.1, c.2.strip true)) = ds.map fun c => (c.1, c.2.strip true)) :
    (Node.branch k cs).strip true = (Node.branch k ds).strip true := by
  rw [Node.strip, Node.strip, Node.stripIn_eq, Node.stripIn_eq, h]

/-- A tree without what stands in its blocks is told without what stands in a block. -/
theorem strip_fill (hBlocks : old.form = .block ∧ new.form = .block) (e : Context) :
    (e.fill old).strip true = (e.fill new).strip true := by
  induction e with
  | nil =>
    obtain ⟨cs, rfl⟩ := Node.exists_children (k := .block) rfl hBlocks.1
    obtain ⟨ds, rfl⟩ := Node.exists_children (k := .block) rfl hBlocks.2
    rfl
  | cons l e ih => exact strip_congr (by simp only [Layer.children, List.map_append, List.map_cons, ih])

theorem strip_exchanged (hBlocks : old.form = .block ∧ new.form = .block)
    (h : Exchanges old new before c c') (n : Node) :
    (c.fill n).strip true = (c'.fill n).strip true := by
  induction h with
  | ahead k front mid back g f e c | behind k front mid back g f e c =>
    exact strip_congr
      (by simp only [Layer.children, List.map_append, List.map_cons, strip_fill hBlocks e])
  | within l _ ih => exact strip_congr (by simp only [Layer.children, List.map_append, List.map_cons, ih])

-- ---------------------------------------------------------------------------
-- Recorded variables
-- ---------------------------------------------------------------------------

/-- What a node itself records, without what is below it. -/
def recordedAt (scope : Scope) (n : Node) : List (String × TypeName) :=
  if n.form = .statement then Variables.declared scope.resolve (n.field .elements) else []

theorem recorded_branch (k : NodeKind) (cs : List (Field × Node)) :
    recorded scope (.branch k cs) =
      recordedAt scope (.branch k cs) ++ cs.flatMap fun c => recorded scope c.2 := by
  rw [recorded, walk_branch, List.flatMap_cons, List.flatMap_assoc]
  congr 1
  cases k <;> rfl

variable (scope) in
/-- What a run declares is told without layout and without what stands in blocks. -/
theorem declared_of_strip (f : Field) {n m : Node} (hn : n.WellFormed) (hm : m.WellFormed)
    (hForm : n.form ≠ .block) (hEq : n.strip true = m.strip true) :
    Variables.declared scope.resolve (n.field f) = Variables.declared scope.resolve (m.field f) := by
  have hSame : m.form = n.form := by rw [← @Node.form_strip true m, ← hEq, Node.form_strip]
  have hFields : (n.field f).map (Node.strip true) = (m.field f).map (Node.strip true) := by
    rw [← Node.field_strip (Node.open_of_form hForm), hEq,
      Node.field_strip (Node.open_of_form (hSame ▸ hForm))]
  rw [← Variables.declared_strip (fun _ => Scope.resolve_strip) (fun e he => hn.of_field he), hFields,
    Variables.declared_strip (fun _ => Scope.resolve_strip) fun e he => hm.of_field he]

variable (scope) in
theorem recordedAt_of_strip {n m : Node} (hn : n.WellFormed) (hm : m.WellFormed)
    (hEq : n.strip true = m.strip true) : recordedAt scope n = recordedAt scope m := by
  have hSame : m.form = n.form := by rw [← @Node.form_strip true m, ← hEq, Node.form_strip]
  rw [recordedAt, recordedAt, hSame]
  split
  · rename_i hForm
    exact declared_of_strip scope .elements hn hm (by simp [hForm]) hEq
  · rfl

/-- Two lists of variables that differ in what is recorded for one block; with the flag, what is recorded
for a place stands behind that. -/
def Differ (scope : Scope) (old new first : Node) (before : Bool) (xs ys : List (String × TypeName)) :
    Prop :=
  ∃ front back, xs = front ++ recorded scope old ++ back ∧ ys = front ++ recorded scope new ++ back ∧
    (before = true → recorded scope first ⊆ back)

theorem Differ.wrap {xs ys : List (String × TypeName)} (h : Differ scope old new first before xs ys)
    (front back : List (String × TypeName)) :
    Differ scope old new first before (front ++ xs ++ back) (front ++ ys ++ back) := by
  obtain ⟨front', back', rfl, rfl, hBehind⟩ := h
  exact ⟨front ++ front', back' ++ back, by simp, by simp, fun hBefore p hp =>
    List.mem_append_left _ (hBehind hBefore hp)⟩

/-- What is recorded for a place stands behind a block in front of it. -/
theorem Differ.ahead {xs ys : List (String × TypeName)} (h : Differ scope old new first false xs ys)
    (front : List (String × TypeName)) {back : List (String × TypeName)}
    (hBehind : recorded scope first ⊆ back) :
    Differ scope old new first true (front ++ xs ++ back) (front ++ ys ++ back) := by
  obtain ⟨front', back', rfl, rfl, -⟩ := h
  exact ⟨front ++ front', back' ++ back, by simp, by simp, fun _ p hp =>
    List.mem_append_right _ (hBehind hp)⟩

/-- Less is said where the place of a block is not told. -/
theorem Differ.weaken {xs ys : List (String × TypeName)} (h : Differ scope old new first true xs ys)
    (before : Bool) : Differ scope old new first before xs ys := by
  obtain ⟨front, back, hx, hy, hBehind⟩ := h
  exact ⟨front, back, hx, hy, fun _ => hBehind rfl⟩

theorem wellFormed_fill {l : Layer} {n : Node} (h : (l.fill n).WellFormed) : n.WellFormed :=
  h.child (Context.mem_children l n)

/-- What is recorded for a tree with a block in it. -/
theorem recorded_fill (hBlocks : old.form = .block ∧ new.form = .block) {e : Context}
    (hOld : (e.fill old).WellFormed) (hNew : (e.fill new).WellFormed) :
    Differ scope old new first false (recorded scope (e.fill old)) (recorded scope (e.fill new)) := by
  induction e with
  | nil => exact ⟨[], [], by simp, by simp, by simp⟩
  | cons l e ih =>
    have hSelf := recordedAt_of_strip scope hOld hNew (strip_fill hBlocks (l :: e))
    have hRest := ih (wellFormed_fill hOld) (wellFormed_fill hNew)
    rw [Context.fill_cons, Context.fill_cons, Layer.fill, Layer.fill] at hSelf ⊢
    rw [recorded_branch, recorded_branch, hSelf, Layer.children, Layer.children, List.flatMap_append,
      List.flatMap_append, List.flatMap_cons, List.flatMap_cons]
    simpa only [List.append_assoc, Layer.children] using hRest.wrap
      (recordedAt scope (.branch l.kind (l.children (Context.fill e new))) ++
        l.front.flatMap fun c => recorded scope c.2) (l.back.flatMap fun c => recorded scope c.2)

/-- What is recorded for a place is recorded for the tree. -/
theorem recorded_subset (c : Context) (n : Node) : recorded scope n ⊆ recorded scope (c.fill n) := by
  induction c with
  | nil => exact fun p hp => hp
  | cons l c ih =>
    intro p hp
    rw [Context.fill_cons, Layer.fill, recorded_branch]
    exact List.mem_append_right _ (List.mem_flatMap.mpr ⟨_, Context.mem_children l _, ih hp⟩)

variable (scope) in
/-- What is recorded for a tree in which a block is exchanged. -/
theorem recorded_exchanged (hBlocks : old.form = .block ∧ new.form = .block)
    (h : Exchanges old new before c c') {n : Node} (hOld : (c.fill n).WellFormed)
    (hNew : (c'.fill n).WellFormed) :
    Differ scope old new n before (recorded scope (c.fill n)) (recorded scope (c'.fill n)) := by
  have hSelf := recordedAt_of_strip scope hOld hNew (strip_exchanged hBlocks h n)
  let all (cs : List (Field × Node)) := cs.flatMap fun c => recorded scope c.2
  induction h with
  | ahead k front mid back g f e c =>
    have hInner : Differ scope old new n false (recorded scope (e.fill old))
        (recorded scope (e.fill new)) :=
      recorded_fill hBlocks (hOld.child (c := (g, e.fill old)) (by simp [Layer.children]))
        (hNew.child (c := (g, e.fill new)) (by simp [Layer.children]))
    rw [Context.fill_cons, Context.fill_cons, Layer.fill, Layer.fill] at hSelf ⊢
    rw [recorded_branch, recorded_branch, hSelf]
    generalize recordedAt scope _ = own
    have hHere : recorded scope n ⊆ all mid ++ recorded scope (c.fill n) ++ all back := fun r hr => by
      simp [recorded_subset c n hr]
    simpa only [all, Layer.children, List.flatMap_append, List.flatMap_cons, List.append_assoc] using
      (hInner.ahead (own ++ all front) hHere).weaken _
  | behind k front mid back g f e c =>
    have hInner : Differ scope old new n false (recorded scope (e.fill old))
        (recorded scope (e.fill new)) :=
      recorded_fill hBlocks (hOld.child (c := (g, e.fill old)) (by simp [Layer.children]))
        (hNew.child (c := (g, e.fill new)) (by simp [Layer.children]))
    rw [Context.fill_cons, Context.fill_cons, Layer.fill, Layer.fill] at hSelf ⊢
    rw [recorded_branch, recorded_branch, hSelf]
    generalize recordedAt scope _ = own
    simpa only [all, Layer.children, List.flatMap_append, List.flatMap_cons, List.append_assoc] using
      hInner.wrap (own ++ all front ++ recorded scope (c.fill n) ++ all mid) (all back)
  | @within l before c c' h ih =>
    have hRest := ih (wellFormed_fill hOld) (wellFormed_fill hNew) (recordedAt_of_strip scope
      (wellFormed_fill hOld) (wellFormed_fill hNew) (strip_exchanged hBlocks h n))
    rw [Context.fill_cons, Context.fill_cons, Layer.fill, Layer.fill] at hSelf ⊢
    rw [recorded_branch, recorded_branch, hSelf]
    simp only [Layer.children, List.flatMap_append, List.flatMap_cons]
    simpa only [List.append_assoc, Layer.children] using hRest.wrap
      (recordedAt scope (.branch l.kind (l.children (c'.fill n))) ++ all l.front) (all l.back)

-- ---------------------------------------------------------------------------
-- Variables in sight
-- ---------------------------------------------------------------------------

/-- What the bodies among some children record. -/
def bodies (scope : Scope) (cs : List (Field × Node)) : List (String × TypeName) :=
  (filed .body cs).flatMap (recorded scope)

theorem bodies_append (cs ds : List (Field × Node)) :
    bodies scope (cs ++ ds) = bodies scope cs ++ bodies scope ds := by
  rw [bodies, filed_append, List.flatMap_append, bodies, bodies]

theorem bodies_cons (f : Field) (n : Node) (cs : List (Field × Node)) :
    bodies scope ((f, n) :: cs) = (if f = .body then recorded scope n else []) ++ bodies scope cs := by
  rw [bodies, filed_cons]
  split
  · rw [List.flatMap_cons, bodies]
  · rfl

variable (scope) in
/-- The variables of a method with a block exchanged are the same, or differ in what is recorded for the
block. -/
theorem variables_exchanged (hBlocks : old.form = .block ∧ new.form = .block)
    (h : Exchanges old new before c c') {n : Node} (hOld : (c.fill n).WellFormed)
    (hNew : (c'.fill n).WellFormed) (hForm : (c.fill n).form = .method) :
    methodVariables scope (c.fill n) = methodVariables scope (c'.fill n) ∨
      Differ scope old new n before (methodVariables scope (c.fill n))
        (methodVariables scope (c'.fill n)) := by
  have hParameters := declared_of_strip scope .parameters hOld hNew (by simp [hForm])
    (strip_exchanged hBlocks h n)
  have hVariables (k : NodeKind) (cs : List (Field × Node)) : methodVariables scope (.branch k cs) =
      Variables.declared scope.resolve (filed .parameters cs) ++ bodies scope cs := rfl
  cases h with
  | ahead k front mid back g f e c =>
    have hInner : Differ scope old new n false (recorded scope (e.fill old))
        (recorded scope (e.fill new)) :=
      recorded_fill hBlocks (hOld.child (c := (g, e.fill old)) (by simp [Layer.children]))
        (hNew.child (c := (g, e.fill new)) (by simp [Layer.children]))
    -- among the children of a method itself, the flag does not tell where the block stands
    have hKind : (k.form != .method) = false := bne_eq_false_iff_eq.mpr hForm
    rw [Context.fill_cons, Context.fill_cons, Layer.fill, Layer.fill] at hParameters ⊢
    rw [Node.field_branch, Node.field_branch] at hParameters
    rw [hVariables, hVariables, hParameters, hKind]
    generalize Variables.declared scope.resolve _ = own
    simp only [Layer.children, bodies_append, bodies_cons]
    by_cases hBody : g = .body
    · right
      simp only [if_pos hBody]
      generalize (if f = .body then recorded scope (c.fill n) else []) = here
      simpa only [List.append_assoc] using
        hInner.wrap (own ++ bodies scope front) (bodies scope mid ++ here ++ bodies scope back)
    · left
      simp only [if_neg hBody]
  | behind k front mid back g f e c =>
    have hInner : Differ scope old new n false (recorded scope (e.fill old))
        (recorded scope (e.fill new)) :=
      recorded_fill hBlocks (hOld.child (c := (g, e.fill old)) (by simp [Layer.children]))
        (hNew.child (c := (g, e.fill new)) (by simp [Layer.children]))
    rw [Context.fill_cons, Context.fill_cons, Layer.fill, Layer.fill] at hParameters ⊢
    rw [Node.field_branch, Node.field_branch] at hParameters
    rw [hVariables, hVariables, hParameters]
    generalize Variables.declared scope.resolve _ = own
    simp only [Layer.children, bodies_append, bodies_cons]
    by_cases hBody : g = .body
    · right
      simp only [if_pos hBody]
      generalize (if f = .body then recorded scope (c.fill n) else []) = here
      simpa only [List.append_assoc] using
        hInner.wrap (own ++ bodies scope front ++ here ++ bodies scope mid) (bodies scope back)
    · left
      simp only [if_neg hBody]
  | @within l before c c' h =>
    rw [Context.fill_cons, Context.fill_cons, Layer.fill, Layer.fill] at hParameters ⊢
    rw [Node.field_branch, Node.field_branch] at hParameters
    rw [hVariables, hVariables, hParameters]
    generalize Variables.declared scope.resolve _ = own
    simp only [Layer.children, bodies_append, bodies_cons]
    by_cases hBody : l.field = .body
    · right
      have hRest := recorded_exchanged scope hBlocks h (wellFormed_fill hOld)
        (wellFormed_fill hNew)
      simp only [if_pos hBody]
      simpa only [List.append_assoc] using
        hRest.wrap (own ++ bodies scope l.front) (bodies scope l.back)
    · left
      simp only [if_neg hBody]

/-- A name of a place may be recorded for a block beside it neither before nor after the block is
exchanged, unless it is recorded for the place too and the block stands in front of it. -/
def Apart (scope : Scope) (old new first : Node) (before : Bool) (x : String) : Prop :=
  (x ∉ (recorded scope old).map Prod.fst ∧ x ∉ (recorded scope new).map Prod.fst) ∨
    before = true ∧ x ∈ (recorded scope first).map Prod.fst

instance (scope : Scope) (old new first : Node) (before : Bool) (x : String) :
    Decidable (Apart scope old new first before x) :=
  inferInstanceAs (Decidable ((_ ∧ _) ∨ _ ∧ _))

/-- Lists of variables that differ tell the same type for a name that is kept apart. -/
theorem typeOf_differ {xs ys : List (String × TypeName)}
    (h : Differ scope old new first before xs ys) {x : String}
    (hApart : Apart scope old new first before x) :
    Variables.typeOf? ys x = Variables.typeOf? xs x := by
  obtain ⟨front, back, rfl, rfl, hBehind⟩ := h
  simp only [Variables.typeOf?, List.reverse_append, List.lookup_append]
  rcases hApart with ⟨hOld, hNew⟩ | ⟨hBefore, hFirst⟩
  · have hNone {zs : List (String × TypeName)} (hNot : x ∉ zs.map Prod.fst) :
        zs.reverse.lookup x = none := by
      refine List.lookup_eq_none_iff.mpr fun p hp => ?_
      have hNe : x ≠ p.1 := fun hEq =>
        hNot (List.mem_map.mpr ⟨p, List.mem_reverse.mp hp, hEq.symm⟩)
      simpa using hNe
    rw [hNone hOld, hNone hNew]
  · -- the last declaration of the name stands behind the block
    obtain ⟨p, hp, rfl⟩ := List.mem_map.mp hFirst
    have hSome : back.reverse.lookup p.1 ≠ none := by
      intro hNone
      have hNot := List.lookup_eq_none_iff.mp hNone p (List.mem_reverse.mpr (hBehind hBefore hp))
      simp at hNot
    obtain ⟨t, ht⟩ := Option.ne_none_iff_exists'.mp hSome
    rw [ht]
    rfl

variable {names : String → Prop} {s s' : Surroundings}

/-- Surroundings that agree still do so within a node in which a block is exchanged. -/
theorem agrees_enter_exchanged (hBlocks : old.form = .block ∧ new.form = .block)
    (h : Exchanges old new before c c') {n : Node} (hOld : (c.fill n).WellFormed)
    (hNew : (c'.fill n).WellFormed) (hAgrees : s.Agrees names s')
    (hApart : ∀ x, names x → Apart s.scope old new n before x) :
    (enter s (c.fill n)).Agrees names (enter s' (c'.fill n)) := by
  have hStrip := strip_exchanged hBlocks h n
  have hForm : (c'.fill n).form = (c.fill n).form := by
    rw [← @Node.form_strip true (c'.fill n), ← hStrip, Node.form_strip]
  by_cases hType : (c.fill n).form = .typeDeclaration
  · have hName : (c'.fill n).declaredName = (c.fill n).declaredName := by
      rw [← @Node.declaredName_strip true (c'.fill n) (Node.open_of_form (by simp [hForm, hType])),
        ← hStrip, Node.declaredName_strip (Node.open_of_form (by simp [hType]))]
    obtain ⟨cs, hCs⟩ := Node.exists_children (k := .typeDeclaration) rfl hType
    obtain ⟨ds, hDs⟩ := Node.exists_children (k := .typeDeclaration) rfl (hForm.trans hType)
    rw [hCs, hDs] at hName ⊢
    exact ⟨hAgrees.scope, by simp only [enter, hName, hAgrees.classes, hAgrees.scope], hAgrees.locals⟩
  by_cases hMethod : (c.fill n).form = .method
  · have hSame : ∀ x, names x → Variables.typeOf? (methodVariables s.scope (c'.fill n)) x =
        Variables.typeOf? (methodVariables s.scope (c.fill n)) x := by
      intro x hx
      rcases variables_exchanged s.scope hBlocks h hOld hNew hMethod with hEq | hDiffer
      · rw [hEq]
      · exact typeOf_differ hDiffer (hApart x hx)
    obtain ⟨cs, hCs⟩ := Node.exists_children (k := .method) rfl hMethod
    obtain ⟨ds, hDs⟩ := Node.exists_children (k := .method) rfl (hForm.trans hMethod)
    rw [hCs, hDs] at hSame ⊢
    refine ⟨hAgrees.scope, hAgrees.classes, fun x hx => ?_⟩
    simp only [enter, List.findSome?_cons, hAgrees.scope, hSame x hx, hAgrees.locals x hx]
  · have hSelf (s : Surroundings) (m : Node) (hm : m.form = (c.fill n).form) : enter s m = s := by
      unfold enter
      split
      · exact absurd hm.symm hType
      · exact absurd hm.symm hMethod
      · rfl
    rw [hSelf s _ rfl, hSelf s' _ hForm]
    exact hAgrees

theorem agrees_within (hAgrees : s.Agrees names s') (c : Context) (n : Node) :
    (within s c n).Agrees names (within s' c n) := by
  induction c generalizing s s' with
  | nil => exact hAgrees
  | cons l c ih => exact ih (agrees_enter hAgrees _)

/-- What surrounds a place agrees before and after a block beside it is exchanged. -/
theorem agrees_exchanged (hBlocks : old.form = .block ∧ new.form = .block)
    (h : Exchanges old new before c c') {n : Node} (hOld : (c.fill n).WellFormed)
    (hNew : (c'.fill n).WellFormed) (hAgrees : s.Agrees names s')
    (hApart : ∀ x, names x → Apart s.scope old new n before x) :
    (within s c n).Agrees names (within s' c' n) := by
  induction h generalizing s s' with
  | ahead k front mid back g f e c =>
    exact agrees_within (agrees_enter_exchanged hBlocks (.ahead k front mid back g f e c) hOld hNew
      hAgrees hApart) c n
  | behind k front mid back g f e c =>
    exact agrees_within (agrees_enter_exchanged hBlocks (.behind k front mid back g f e c) hOld hNew
      hAgrees hApart) c n
  | within l h ih =>
    refine ih (wellFormed_fill hOld) (wellFormed_fill hNew)
      (agrees_enter_exchanged hBlocks (.within l h) hOld hNew hAgrees hApart) ?_
    rw [scope_enter]
    exact hApart

-- ---------------------------------------------------------------------------
-- Units
-- ---------------------------------------------------------------------------

theorem runsAt_exchanged (h : Exchanges old new before c c') (b : Bool) : runsAt b c' = runsAt b c := by
  induction h generalizing b with
  | ahead | behind => rw [runsAt_cons, runsAt_cons]
  | within l _ ih => rw [runsAt_cons, runsAt_cons, ih]

/-- A block is attributed to one block. -/
theorem exists_of_block {b : Bool} (h : first.form = .block) :
    ∃ cs, (ofNode s b first).value = [.branch .block cs] := by
  obtain ⟨cs, rfl⟩ := Node.exists_children (k := .block) rfl h
  exact ⟨_, ofNode_branch (by simp [NodeKind.form]) (by simp)⟩

/-- Without layout, an attributed unit has in the place of a block what becomes of the block. -/
theorem exists_of_plain (classpath : Classpath) {tree : Node} (h : tree.Fresh)
    (hTree : tree.plain = c.fill first)
    (hTypes : c.head?.any (fun l => l.field = .types) = true) (hFirst : first.form = .block) :
    ∃ d block, List.Forall₂ Layer.Attributed c d ∧
      (ofUnit classpath tree).value.plain = Context.fill d block ∧
      (ofNode (within { scope := Scope.ofUnit (c.fill first) classpath } c first) (runsAt false c)
        first).value = [block] := by
  have hFine := h.wellFormed
  have hPlain : (c.fill first).WellFormed := hTree ▸ hFine.plain
  have hForm : (c.fill first).form = .unit := by
    rw [← hTree, Node.form_strip, h.isUnit]
  obtain ⟨cs, hBlock⟩ := exists_of_block (b := runsAt false c)
    (s := within { scope := Scope.ofUnit (c.fill first) classpath } c first) hFirst
  cases c with
  | nil => cases hTypes
  | cons l c =>
    obtain ⟨d, hAll, hValue⟩ := ofUnit_fill classpath rfl hPlain hForm (by simpa using hTypes)
      (by simp [hFirst]) (fun _ hEq => by cases hEq) hBlock
    refine ⟨d, .branch .block cs, hAll, ?_, hBlock⟩
    rw [← ofUnit_plain classpath hFine h.isUnit, hTree, hValue]

/-- What becomes of a block does not depend on a block beside it: two units that differ, but for layout,
in nothing else than that block get the same for the first one, as long as the names in it are kept
apart from what is recorded for the other. -/
theorem siblings_apart (classpath : Classpath) {tree tree' : Node}
    (h : tree.Fresh) (h' : tree'.Fresh)
    (hTree : tree.plain = c.fill first) (hTree' : tree'.plain = c'.fill first)
    (hTypes : c.head?.any (fun l => l.field = .types) = true) (hFirst : first.form = .block)
    (hBlocks : old.form = .block ∧ new.form = .block) (hExchanges : Exchanges old new before c c')
    (hApart : ∀ m ∈ first.walk, ∀ x, m.simpleNameOf? = some x →
      Apart (Scope.ofUnit tree classpath) old new first before x) :
    ∃ d d' block, List.Forall₂ Layer.Attributed c d ∧ List.Forall₂ Layer.Attributed c' d' ∧
      (ofUnit classpath tree).value.plain = Context.fill d block ∧
      (ofUnit classpath tree').value.plain = Context.fill d' block := by
  have hFine := h.wellFormed
  have hPlain : (c.fill first).WellFormed := hTree ▸ hFine.plain
  have hPlain' : (c'.fill first).WellFormed := hTree' ▸ h'.wellFormed.plain
  have hForm : (c.fill first).form = .unit := by
    rw [← hTree, Node.form_strip, h.isUnit]
  have hForm' : (c'.fill first).form = .unit := by
    rw [← hTree', Node.form_strip, h'.isUnit]
  have hChained : first.Chained := by
    have hAll := h.chained.plain
    rw [hTree] at hAll
    exact Context.inherit hAll fun k cs h d hd => h.child hd
  -- the scope is that of the unit without the insides of its blocks
  have hScope : Scope.ofUnit (c.fill first) classpath = Scope.ofUnit tree classpath := by
    rw [← hTree, Scope.scope_strip classpath hFine h.isUnit]
  have hScope' : Scope.ofUnit (c'.fill first) classpath = Scope.ofUnit (c.fill first) classpath := by
    rw [← @Scope.scope_strip true _ classpath hPlain' hForm',
      ← strip_exchanged hBlocks hExchanges, Scope.scope_strip classpath hPlain hForm]
  have hAgrees : (within { scope := Scope.ofUnit (c.fill first) classpath } c first).Agrees
      (fun x => ∃ m ∈ first.walk, m.simpleNameOf? = some x)
      (within { scope := Scope.ofUnit (c'.fill first) classpath } c' first) := by
    refine agrees_exchanged hBlocks hExchanges hPlain hPlain' ⟨hScope', rfl, fun _ _ => rfl⟩ ?_
    rintro x ⟨m, hm, hName⟩
    rw [hScope]
    exact hApart m hm x hName
  have hTypes' : c'.head?.any (fun l => l.field = .types) = true := by
    cases hExchanges <;> exact hTypes
  obtain ⟨d, block, hAll, hValue, hBlock⟩ := exists_of_plain classpath h hTree hTypes hFirst
  obtain ⟨d', block', hAll', hValue', hBlock'⟩ :=
    exists_of_plain classpath h' hTree' hTypes' hFirst
  rw [runsAt_exchanged hExchanges, ofNode_agrees (Context.inherit hPlain fun k cs h d hd => h.child hd)
    hChained hAgrees fun m hm x hName => ⟨m, hm, hName⟩, hBlock] at hBlock'
  obtain rfl : block = block' := List.singleton_inj.mp hBlock'
  exact ⟨d, d', block, hAll, hAll', hValue, hValue'⟩

/-- A sign without layout. -/
def plainSign (text : String) : Node := .token { kind := .operator, text }

/-- A keyword without layout. -/
def plainWord (text : String) : Node := .token { kind := .keyword, text }

/-- A simple name without layout. -/
def plainName (text : String) : Node :=
  .branch (.name none) [(.tokens, .token { kind := .identifier, text })]

/-- A statement of some elements. -/
def plainStatement (elements : List Node) : Node :=
  .branch .statement (elements.map fun e => (.elements, e))

/-- A block of some statements. -/
def plainBlock (statements : List Node) : Node :=
  .branch .block ((.opening, plainSign "\x7b") ::
    (statements.map (fun st => (.statements, st)) ++ [(.closing, plainSign "\x7d")]))

/-- A statement at the end of the only method of a class, behind others. -/
def inMethod (front : List Node) : Context :=
  [⟨.unit, [], .types, [(.endMarker, .token { kind := .endOfText, text := "" })]⟩,
    ⟨.typeDeclaration,
      [(.kind, plainWord "class"), (.name, .token { kind := .identifier, text := "A" })], .body, []⟩,
    ⟨.classBody, [(.opening, plainSign "\x7b")], .members, [(.closing, plainSign "\x7d")]⟩,
    ⟨.method,
      [(.modifiers, plainWord "void"), (.name, .token { kind := .identifier, text := "f" }),
        (.parameters, plainSign "("), (.parameters, plainSign ")")], .body, []⟩,
    ⟨.block, (.opening, plainSign "\x7b") :: front.map (fun st => (.statements, st)), .statements,
      [(.closing, plainSign "\x7d")]⟩,
    ⟨.statement, [], .elements, []⟩]

/-- The declaration of a variable. -/
def declaring (type : String) : Node :=
  plainStatement [plainName type, plainName "a", plainSign ";"]

/-- A call on the variable. -/
def callingOn (method : String) : Node :=
  plainStatement [plainName "a", plainSign ".",
    .branch (.call none) [(.callee, .token { kind := .identifier, text := method })], plainSign "(",
    plainSign ")", plainSign ";"]

/-- Exchanging the other block of two in the method, where it stands in front. -/
theorem exchanges_ahead (old new : Node) :
    Exchanges old new true (inMethod [plainStatement [old]]) (inMethod [plainStatement [new]]) :=
  .within _ (.within _ (.within _ (.within _
    (.ahead .block [(.opening, plainSign "\x7b")] [] [(.closing, plainSign "\x7d")] .statements
      .statements [⟨.statement, [], .elements, []⟩] [⟨.statement, [], .elements, []⟩]))))

open Draft in
/-- A method with two blocks that declare one name, the other block in front. -/
def ahead (type : String) : Sample := .ofDraft (node "program" [
  classOf "A" none (braced "class_body" [
    methodOf voidType "f" [] (braced "block" [
      braced "block" [localOf (typeWord type " ") "a"],
      braced "block" [localOf (typeWord "A" " ") "a", asStatement (callOn (word "a" " ") "f" [])]])])]) "\n"

set_option maxRecDepth 100000 in
theorem siblings_apart_ahead : ∃ tree tree' d d' block,
    (ahead "String").unit? = some tree ∧ (ahead "Thread").unit? = some tree' ∧ tree.Fresh ∧ tree'.Fresh ∧
    (ofUnit ⟨defaultStubs⟩ tree).value.plain = Context.fill d block ∧
    (ofUnit ⟨defaultStubs⟩ tree').value.plain = Context.fill d' block := by
  let first := plainBlock [declaring "A", callingOn "f"]
  let other (type : String) := plainBlock [declaring type]
  have hPlain : ((ahead "String").unit?.map Node.plain, (ahead "Thread").unit?.map Node.plain) =
      (some (Context.fill (inMethod [plainStatement [other "String"]]) first),
        some (Context.fill (inMethod [plainStatement [other "Thread"]]) first)) := by decide +kernel
  obtain ⟨hString, hThread⟩ := Prod.mk.inj hPlain
  have hApart : (ahead "String").unit?.all (fun tree =>
      first.walk.all fun m => m.simpleNameOf?.all fun x =>
        decide (Apart (Scope.ofUnit tree ⟨defaultStubs⟩) (other "String") (other "Thread") first true x)) =
      true := by decide +kernel
  obtain ⟨tree, hTree, hString⟩ := Option.map_eq_some_iff.mp hString
  obtain ⟨tree', hTree', hThread⟩ := Option.map_eq_some_iff.mp hThread
  have hFresh := Parsing.fresh_of_sample (by decide +kernel) hTree
  have hFresh' := Parsing.fresh_of_sample (by decide +kernel) hTree'
  simp only [hTree, Option.all_some, List.all_eq_true] at hApart
  obtain ⟨d, d', block, -, -, hValue, hValue'⟩ :=
    siblings_apart ⟨defaultStubs⟩ hFresh hFresh' hString hThread rfl rfl ⟨rfl, rfl⟩
      (exchanges_ahead (other "String") (other "Thread")) fun m hm x hName => by
        have hAll := hApart m hm
        rw [hName] at hAll
        exact of_decide_eq_true hAll
  exact ⟨tree, tree', d, d', block, hTree, hTree', hFresh, hFresh', hValue, hValue'⟩

end Attribution

end SourceMigration
