import Mathlib.Data.List.Basic
import SourceMigration.Tree.Build

/-!
# SourceMigration — well-formed trees

`NodeKind.shape` says which fields a node has; `NodeKind.slots` adds what may stand in each of
them. A node is well-formed when its children fill the slots of its kind in their order, here and
below. The order matters twice: printing field by field gives the source text back, and an edit
that takes a node apart by its fields can put it together again.

Equality of trees is decidable, so that a tree can be compared with one written down.

## Results

* `Fills.append`        — children that fill slots one run after another fill them together.
* `Fills.uncons`        — the children of the first slot stand in front.
* `WellFormed.printed`  — printing field by field is printing in the order of the text.
-/

namespace SourceMigration

-- ---------------------------------------------------------------------------
-- Forms and slots
-- ---------------------------------------------------------------------------

/-- What a node is, apart from its children and from what it denotes. -/
inductive Form where
  | token
  | name
  | parameterized
  | call
  | statement
  | block
  | extendsClause
  | method
  | classBody
  | typeDeclaration
  | importDeclaration
  | packageDeclaration
  | unit
  deriving DecidableEq, Repr

/-- The form of an inner node. -/
def NodeKind.form : NodeKind → Form
  | .name _ => .name
  | .parameterized => .parameterized
  | .call _ => .call
  | .statement => .statement
  | .block => .block
  | .extendsClause => .extendsClause
  | .method => .method
  | .classBody => .classBody
  | .typeDeclaration => .typeDeclaration
  | .importDeclaration => .importDeclaration
  | .packageDeclaration => .packageDeclaration
  | .unit => .unit

/-- The form of a node. -/
def Node.form : Node → Form
  | .token _ => .token
  | .branch k _ => k.form

/-- A field of a node with what may stand in it. -/
structure Slot where
  field : Field
  multiplicity : Multiplicity
  forms : List Form
  deriving DecidableEq, Repr

/-- What the runs of a tree are made of. -/
def elementForms : List Form := [.token, .name, .parameterized, .call, .block, .typeDeclaration]

/-- What the members of a type and the parts of a unit are. -/
def memberForms : List Form := [.method, .typeDeclaration, .statement]

/-- The slots of a node in the order of the text. -/
def NodeKind.slots : NodeKind → List Slot
  | .name _ => [⟨.tokens, .many, [.token]⟩]
  | .parameterized => [⟨.base, .one, [.name]⟩, ⟨.arguments, .many, elementForms⟩]
  | .call _ => [⟨.callee, .one, [.token]⟩]
  | .statement => [⟨.elements, .many, elementForms⟩]
  | .block =>
    [⟨.opening, .one, [.token]⟩, ⟨.statements, .many, [.statement]⟩, ⟨.closing, .one, [.token]⟩]
  | .extendsClause => [⟨.keyword, .one, [.token]⟩, ⟨.supertype, .one, [.name, .parameterized]⟩]
  | .method =>
    [⟨.modifiers, .many, elementForms⟩, ⟨.name, .one, [.token]⟩, ⟨.parameters, .many, elementForms⟩,
      ⟨.tail, .many, elementForms⟩, ⟨.body, .optional, [.block]⟩,
      ⟨.terminator, .optional, [.token]⟩]
  | .classBody =>
    [⟨.opening, .one, [.token]⟩, ⟨.members, .many, memberForms⟩, ⟨.closing, .one, [.token]⟩]
  | .typeDeclaration =>
    [⟨.modifiers, .many, elementForms⟩, ⟨.kind, .one, [.token]⟩, ⟨.name, .one, [.token]⟩,
      ⟨.header, .many, elementForms⟩, ⟨.superclass, .optional, [.extendsClause]⟩,
      ⟨.tail, .many, elementForms⟩, ⟨.body, .one, [.classBody]⟩]
  | .importDeclaration =>
    [⟨.keyword, .one, [.token]⟩, ⟨.staticWord, .optional, [.token]⟩, ⟨.name, .one, [.name]⟩,
      ⟨.wildcard, .many, [.token]⟩, ⟨.semicolon, .one, [.token]⟩]
  | .packageDeclaration =>
    [⟨.modifiers, .many, elementForms⟩, ⟨.keyword, .one, [.token]⟩, ⟨.name, .one, [.name]⟩,
      ⟨.semicolon, .one, [.token]⟩]
  | .unit =>
    [⟨.package, .optional, [.packageDeclaration]⟩, ⟨.imports, .many, [.importDeclaration]⟩,
      ⟨.types, .many, memberForms⟩, ⟨.endMarker, .one, [.token]⟩]

/-- The slots of a kind are its shape with the forms added. -/
theorem map_slots_eq_shape (k : NodeKind) :
    (k.slots.map fun s => (s.field, s.multiplicity)) = k.shape := by
  cases k <;> rfl

/-- No field of a kind has two slots. -/
theorem nodup_fields (k : NodeKind) : (k.slots.map Slot.field).Nodup := by
  cases k <;> simp [NodeKind.slots]

-- ---------------------------------------------------------------------------
-- Filling slots
-- ---------------------------------------------------------------------------

/-- A child without what is below it. -/
def tag (c : Field × Node) : Field × Form := (c.1, c.2.form)

/-- Whether so many children may stand in a field. -/
def Multiplicity.admits : Multiplicity → Nat → Prop
  | .one, n => n = 1
  | .optional, n => n ≤ 1
  | .many, _ => True

/-- Some slots, children that go into them one after another, and the slots still open then. -/
inductive Fills : List Slot → List (Field × Form) → List Slot → Prop where
  | refl (ss : List Slot) : Fills ss [] ss
  /-- Nothing, or nothing more, stands in the first slot. -/
  | skip {s ss ts out} (hSkip : s.multiplicity ≠ .one) (h : Fills ss ts out) :
      Fills (s :: ss) ts out
  /-- The only child of the first slot. -/
  | single {s ss ts out form} (hSingle : s.multiplicity ≠ .many) (hForm : form ∈ s.forms)
      (h : Fills ss ts out) : Fills (s :: ss) ((s.field, form) :: ts) out
  /-- A child of the first slot that others may follow. -/
  | further {s ss ts out form} (hMany : s.multiplicity = .many) (hForm : form ∈ s.forms)
      (h : Fills (s :: ss) ts out) : Fills (s :: ss) ((s.field, form) :: ts) out

namespace Fills

/-- Children that fill slots one run after another fill them together. -/
theorem append {ss mid out : List Slot} {ts us : List (Field × Form)} (h : Fills ss ts mid)
    (h' : Fills mid us out) : Fills ss (ts ++ us) out := by
  induction h with
  | refl ss => exact h'
  | skip hSkip _ ih => exact .skip hSkip (ih h')
  | single hSingle hForm _ ih => exact .single hSingle hForm (ih h')
  | further hMany hForm _ ih => exact .further hMany hForm (ih h')

/-- The children of the first slot stand in front of all others. -/
theorem uncons {s : Slot} {ss : List Slot} {cs : List (Field × Node)}
    (h : Fills (s :: ss) (cs.map tag) []) :
    ∃ (here : List Node) (rest : List (Field × Node)),
      cs = here.map (fun n => (s.field, n)) ++ rest ∧ s.multiplicity.admits here.length ∧
      (∀ n ∈ here, n.form ∈ s.forms) ∧ Fills ss (rest.map tag) [] := by
  generalize hAll : s :: ss = all at h
  generalize hTags : cs.map tag = ts at h
  generalize hOut : ([] : List Slot) = out at h
  induction h generalizing cs with
  | refl => cases hAll.trans hOut.symm
  | @skip s' ss' ts out hSkip hRest _ =>
    obtain ⟨rfl, rfl⟩ := List.cons.inj hAll
    subst hTags hOut
    refine ⟨[], cs, rfl, ?_, by simp, hRest⟩
    cases hm : s.multiplicity <;> simp_all [Multiplicity.admits]
  | @single s' ss' ts out form hSingle hForm hRest _ =>
    obtain ⟨rfl, rfl⟩ := List.cons.inj hAll
    obtain ⟨⟨f, n⟩, cs, rfl, hTag, rfl⟩ := List.map_eq_cons_iff.mp hTags
    obtain ⟨rfl, rfl⟩ := Prod.mk.inj hTag
    subst hOut
    refine ⟨[n], cs, rfl, ?_, by simpa using hForm, hRest⟩
    cases hm : s.multiplicity <;> simp_all [Multiplicity.admits]
  | @further s' ss' ts out form hMany hForm hRest ih =>
    obtain ⟨rfl, rfl⟩ := List.cons.inj hAll
    obtain ⟨⟨f, n⟩, cs, rfl, hTag, rfl⟩ := List.map_eq_cons_iff.mp hTags
    obtain ⟨rfl, rfl⟩ := Prod.mk.inj hTag
    obtain ⟨here, rest, rfl, -, hForms, hFills⟩ := ih rfl rfl hOut
    refine ⟨n :: here, rest, rfl, by simp [hMany, Multiplicity.admits], ?_, hFills⟩
    intro m hm
    rcases List.mem_cons.mp hm with rfl | hm
    · exact hForm
    · exact hForms m hm

/-- Nothing is left over once all slots are closed. -/
theorem eq_nil {cs : List (Field × Node)} (h : Fills [] (cs.map tag) []) : cs = [] := by
  generalize hTags : cs.map tag = ts at h
  cases h
  exact List.map_eq_nil_iff.mp hTags

/-- A child that fills some slots fills one of them. -/
theorem mem {ss out : List Slot} {ts : List (Field × Form)} (h : Fills ss ts out)
    {t : Field × Form} (ht : t ∈ ts) : ∃ s ∈ ss, t.1 = s.field ∧ t.2 ∈ s.forms := by
  induction h with
  | refl ss => cases ht
  | skip _ _ ih =>
    obtain ⟨s, hs, hSlot⟩ := ih ht
    exact ⟨s, List.mem_cons_of_mem _ hs, hSlot⟩
  | single _ hForm _ ih =>
    rcases List.mem_cons.mp ht with rfl | ht
    · exact ⟨_, List.mem_cons_self, rfl, hForm⟩
    · obtain ⟨s, hs, hSlot⟩ := ih ht
      exact ⟨s, List.mem_cons_of_mem _ hs, hSlot⟩
  | further _ hForm _ ih =>
    rcases List.mem_cons.mp ht with rfl | ht
    · exact ⟨_, List.mem_cons_self, rfl, hForm⟩
    · exact ih ht

end Fills

/-- Any number of children go into a slot that takes any number. -/
theorem fills_many {s : Slot} {ss : List Slot} {ts : List (Field × Form)}
    (hMany : s.multiplicity = .many) (h : ∀ t ∈ ts, t.1 = s.field ∧ t.2 ∈ s.forms) :
    Fills (s :: ss) ts (s :: ss) := by
  induction ts with
  | nil => exact .refl _
  | cons t ts ih =>
    obtain ⟨f, form⟩ := t
    obtain ⟨rfl, hForm⟩ := h _ List.mem_cons_self
    exact .further hMany hForm (ih fun u hu => h u (List.mem_cons_of_mem _ hu))

/-- Any number of children fill the only slot, if it takes any number. -/
theorem fills_only {s : Slot} {ts : List (Field × Form)} (hMany : s.multiplicity = .many)
    (h : ∀ t ∈ ts, t.1 = s.field ∧ t.2 ∈ s.forms) : Fills [s] ts [] := by
  simpa using (fills_many hMany h).append (.skip (by simp [hMany]) (.refl []))

/-- The children filed under a field, in order. -/
def filed (f : Field) (cs : List (Field × Node)) : List Node :=
  cs.filterMap fun c => if c.1 = f then some c.2 else none

@[simp] theorem Node.field_branch (k : NodeKind) (cs : List (Field × Node)) (f : Field) :
    (Node.branch k cs).field f = filed f cs := rfl

@[simp] theorem filed_append (f : Field) (cs ds : List (Field × Node)) :
    filed f (cs ++ ds) = filed f cs ++ filed f ds := List.filterMap_append

theorem filed_map (f g : Field) (ns : List Node) :
    filed f (ns.map fun n => (g, n)) = if g = f then ns else [] := by
  split
  · rename_i h
    simp [filed, h, List.filterMap_map]
  · rename_i h
    simp [filed, h, List.filterMap_map]

theorem filed_eq_nil {f : Field} {cs : List (Field × Node)} (h : ∀ c ∈ cs, c.1 ≠ f) :
    filed f cs = [] := by
  rw [filed, List.filterMap_eq_nil_iff]
  intro c hc
  rw [if_neg (h c hc)]

/-- Children that fill slots stand in the order of the slots, so many in each as it admits and
of the forms it asks for. -/
theorem Fills.fieldwise {ss : List Slot} {cs : List (Field × Node)}
    (hNodup : (ss.map Slot.field).Nodup) (h : Fills ss (cs.map tag) []) :
    cs = ss.flatMap (fun s => (filed s.field cs).map fun n => (s.field, n)) ∧
      (∀ c ∈ cs, c.1 ∈ ss.map Slot.field) ∧
      ∀ s ∈ ss, s.multiplicity.admits (filed s.field cs).length ∧
        ∀ n ∈ filed s.field cs, n.form ∈ s.forms := by
  induction ss generalizing cs with
  | nil => simp [h.eq_nil]
  | cons s ss ih =>
    obtain ⟨here, rest, rfl, hAdmits, hForms, hRest⟩ := h.uncons
    rw [List.map_cons, List.nodup_cons] at hNodup
    obtain ⟨hOrder, hFields, hSlots⟩ := ih hNodup.2 hRest
    -- what stands in a later slot is filed under another field
    have hNone : filed s.field rest = [] :=
      filed_eq_nil fun c hc hEq => hNodup.1 (hEq ▸ hFields c hc)
    have hHere : filed s.field (here.map (fun n => (s.field, n)) ++ rest) = here := by
      rw [filed_append, filed_map, if_pos rfl, hNone, List.append_nil]
    have hLater : ∀ s' ∈ ss,
        filed s'.field (here.map (fun n => (s.field, n)) ++ rest) = filed s'.field rest := by
      intro s' hs'
      have hNe : s.field ≠ s'.field := fun hEq => hNodup.1 (hEq ▸ List.mem_map_of_mem hs')
      rw [filed_append, filed_map, if_neg hNe, List.nil_append]
    refine ⟨?_, ?_, ?_⟩
    · rw [List.flatMap_cons, hHere]
      congr 1
      refine hOrder.trans (List.flatMap_congr ?_)
      intro s' hs'
      rw [hLater s' hs']
    · intro c hc
      rcases List.mem_append.mp hc with hc | hc
      · obtain ⟨n, -, rfl⟩ := List.mem_map.mp hc
        exact List.mem_cons_self
      · exact List.mem_cons_of_mem _ (hFields c hc)
    · intro s' hs'
      rcases List.mem_cons.mp hs' with rfl | hs'
      · rw [hHere]
        exact ⟨hAdmits, hForms⟩
      · rw [hLater s' hs']
        exact hSlots s' hs'

-- ---------------------------------------------------------------------------
-- Well-formed nodes
-- ---------------------------------------------------------------------------

namespace Node

/-- The children fill the slots of the node, here and below. -/
inductive WellFormed : Node → Prop where
  | token (t : Token) : WellFormed (.token t)
  | branch {k : NodeKind} {cs : List (Field × Node)} (hFills : Fills k.slots (cs.map tag) [])
      (hChildren : ∀ c ∈ cs, WellFormed c.2) : WellFormed (.branch k cs)

namespace WellFormed

variable {k : NodeKind} {cs : List (Field × Node)}

theorem fills (h : WellFormed (.branch k cs)) : Fills k.slots (cs.map tag) [] := by
  cases h with
  | branch hFills _ => exact hFills

theorem child (h : WellFormed (.branch k cs)) {c : Field × Node} (hc : c ∈ cs) :
    WellFormed c.2 := by
  cases h with
  | branch _ hChildren => exact hChildren c hc

theorem child_of_mem {n : Node} (h : WellFormed n) {c : Field × Node} (hc : c ∈ n.children) :
    WellFormed c.2 := by
  cases n with
  | token t => cases hc
  | branch k cs => exact h.child hc

/-- A well-formed tree is well-formed below. -/
theorem walk {n : Node} (h : WellFormed n) : ∀ m ∈ n.walk, WellFormed m := by
  induction h with
  | token t =>
    intro m hm
    rw [Node.walk, List.mem_singleton] at hm
    exact hm ▸ .token t
  | @branch k cs hFills hChildren ih =>
    intro m hm
    rw [Node.walk, Node.walkOf_eq, List.mem_cons, List.mem_flatMap] at hm
    rcases hm with rfl | ⟨c, hc, hm⟩
    · exact .branch hFills hChildren
    · exact ih c hc m hm

end WellFormed

/-- What is on the walk of a child is on that of the node. -/
theorem mem_walk_of_child {k : NodeKind} {cs : List (Field × Node)} {c : Field × Node} (hc : c ∈ cs)
    {m : Node} (hm : m ∈ c.2.walk) : m ∈ (branch k cs).walk := by
  rw [walk, walkOf_eq]
  exact List.mem_cons_of_mem _ (List.mem_flatMap.mpr ⟨c, hc, hm⟩)

-- ---------------------------------------------------------------------------
-- Printing field by field
-- ---------------------------------------------------------------------------

mutual

/-- The source text of a node, written field after field in the order of its shape. -/
def printed : Node → String
  | .token t => t.source
  | .branch k cs =>
    String.join (k.shape.flatMap fun s =>
      (printedIn cs).filterMap fun p => if p.1 = s.1 then some p.2 else none)

/-- The source text of each child, under its field. -/
def printedIn : List (Field × Node) → List (Field × String)
  | [] => []
  | (f, n) :: cs => (f, n.printed) :: printedIn cs

end

theorem printedIn_eq (cs : List (Field × Node)) :
    printedIn cs = cs.map fun c => (c.1, c.2.printed) := by
  induction cs with
  | nil => rfl
  | cons c cs ih => rw [printedIn, ih, List.map_cons]

theorem text_token (t : Token) : (Node.token t).text = t.source := by
  simp [text, tokens, sourceOf, String.join]

/-- The text of a node is that of its children in turn. -/
theorem text_branch (k : NodeKind) (cs : List (Field × Node)) :
    (Node.branch k cs).text = String.join (cs.map fun c => c.2.text) := by
  show sourceOf (tokensOf cs) = _
  induction cs with
  | nil => rfl
  | cons c cs ih =>
    rw [tokensOf, sourceOf_append, ih, List.map_cons, String.join_cons]
    rfl

/-- Printing field by field is printing in the order of the text. -/
theorem WellFormed.printed {n : Node} (h : WellFormed n) : n.printed = n.text := by
  induction h with
  | token t => exact (text_token t).symm
  | @branch k cs hFills _ ih =>
    have hChildren : printedIn cs = cs.map fun c => (c.1, c.2.text) := by
      rw [printedIn_eq]
      exact List.map_congr_left fun c hc => by rw [ih c hc]
    have hFiled : ∀ f, ((cs.map fun c => (c.1, c.2.text)).filterMap fun p =>
        if p.1 = f then some p.2 else none) = (filed f cs).map text := by
      intro f
      rw [filed, List.filterMap_map, List.map_filterMap]
      refine List.filterMap_congr ?_
      intro c _
      by_cases hf : c.1 = f <;> simp [hf]
    obtain ⟨hOrder, -, -⟩ := hFills.fieldwise (nodup_fields k)
    have hTexts : cs.map (fun c => c.2.text) =
        k.slots.flatMap fun s => (filed s.field cs).map text := by
      conv =>
        lhs
        rw [hOrder]
      rw [List.map_flatMap]
      refine List.flatMap_congr ?_
      intro s _
      rw [List.map_map]
      rfl
    rw [Node.printed, text_branch, hChildren, hTexts, ← map_slots_eq_shape, List.flatMap_map]
    congr 1
    refine List.flatMap_congr ?_
    intro s _
    exact hFiled s.field

end Node

-- ---------------------------------------------------------------------------
-- Equality
-- ---------------------------------------------------------------------------

namespace Node

mutual

/-- Whether two trees are the same. -/
def decEq : (n m : Node) → Decidable (n = m)
  | .token t, .token u => decidable_of_iff (t = u) (by simp)
  | .branch k cs, .branch l ds =>
    have := decEqIn cs ds
    decidable_of_iff (k = l ∧ cs = ds) (by simp)
  | .token _, .branch _ _ => .isFalse nofun
  | .branch _ _, .token _ => .isFalse nofun

/-- The same of lists of children. -/
def decEqIn : (cs ds : List (Field × Node)) → Decidable (cs = ds)
  | [], [] => .isTrue rfl
  | (f, n) :: cs, (g, m) :: ds =>
    have := decEq n m
    have := decEqIn cs ds
    decidable_of_iff (f = g ∧ n = m ∧ cs = ds) (by simp [and_assoc])
  | [], _ :: _ => .isFalse nofun
  | _ :: _, [] => .isFalse nofun

end

instance : DecidableEq Node := decEq

end Node

end SourceMigration
