import SourceMigration.Proofs.Tree.Parts
import SourceMigration.Tree.Revision

/-!
# SourceMigration — edits of names and calls

The passes over a whole unit look for nodes to replace, but what they replace are names and calls,
with nothing but tokens below them. Such a pass changes each name and each call by itself and
leaves the tree around them alone: it is a `mapLeaves`, and two of them are one.

Trivia before the first token of a node are changed by `withLeading`. A pass that only carries
trivia over does not interfere with that; `Refronts` says so of lists of nodes, where the first
token of all is concerned.

## Results

* `mapLeaves_mapLeaves`   — two edits of names and calls in a row are one.
* `replaceAll_leaves`     — replacing names and calls in a well-formed node is such an edit.
* `Refronts.mapLeaves`    — an edit that carries trivia over commutes with a change of the first.
-/

namespace SourceMigration

namespace Node

mutual

/-- The tree with other names and calls. -/
def mapLeaves (f : Node → Node) : Node → Node
  | .token t => .token t
  | .branch k cs => if k.isLeaf then f (.branch k cs) else .branch k (mapLeavesIn f cs)

/-- The same of each child. -/
def mapLeavesIn (f : Node → Node) : List (Field × Node) → List (Field × Node)
  | [] => []
  | (g, n) :: cs => (g, n.mapLeaves f) :: mapLeavesIn f cs

end

theorem mapLeavesIn_eq (f : Node → Node) (cs : List (Field × Node)) :
    mapLeavesIn f cs = cs.map fun c => (c.1, c.2.mapLeaves f) := by
  induction cs with
  | nil => rfl
  | cons c cs ih => rw [mapLeavesIn, ih, List.map_cons]

theorem mapLeaves_leaf {f : Node → Node} {k : NodeKind} {cs : List (Field × Node)}
    (h : k.isLeaf = true) : (Node.branch k cs).mapLeaves f = f (.branch k cs) := by
  rw [mapLeaves, if_pos h]

theorem mapLeaves_branch {f : Node → Node} {k : NodeKind} {cs : List (Field × Node)}
    (h : k.isLeaf = false) :
    (Node.branch k cs).mapLeaves f = .branch k (cs.map fun c => (c.1, c.2.mapLeaves f)) := by
  rw [mapLeaves, if_neg (by simp [h]), mapLeavesIn_eq]

/-- An edit of names and calls: names stay names and calls stay calls, well-formed as before. -/
structure EditsLeaves (f : Node → Node) : Prop where
  form : ∀ {k cs}, k.isLeaf = true → (f (.branch k cs)).form = k.form
  wellFormed : ∀ {k cs}, k.isLeaf = true → (Node.branch k cs).WellFormed →
    (f (.branch k cs)).WellFormed
  /-- What stands before a name or a call is carried over. -/
  leading : ∀ {k cs}, k.isLeaf = true → (Node.branch k cs).WellFormed → ∀ l,
    ∃ l', f ((Node.branch k cs).withLeading l) = (f (.branch k cs)).withLeading l'

theorem isLeaf_of_form {k k' : NodeKind} (h : k.form = k'.form) : k.isLeaf = k'.isLeaf := by
  cases k <;> cases k' <;> first | rfl | cases h

/-- Two edits of names and calls in a row are one. -/
theorem mapLeaves_mapLeaves (f g : Node → Node) (n : Node) :
    (n.mapLeaves f).mapLeaves g = n.mapLeaves fun m => (f m).mapLeaves g := by
  induction n using Node.induct with
  | token t => rfl
  | branch k cs ih =>
    by_cases hk : k.isLeaf = true
    · rw [mapLeaves_leaf hk, mapLeaves_leaf hk]
    · have hk : k.isLeaf = false := by simpa using hk
      rw [mapLeaves_branch hk, mapLeaves_branch hk, mapLeaves_branch hk, List.map_map]
      congr 1
      exact List.map_congr_left fun c hc => by rw [Function.comp, ih c hc]

/-- Edits that agree on the names and calls of a well-formed tree give the same tree. -/
theorem mapLeaves_congr {f g : Node → Node}
    (hfg : ∀ k cs, k.isLeaf = true → (Node.branch k cs).WellFormed →
      f (.branch k cs) = g (.branch k cs)) {n : Node} (h : n.WellFormed) :
    n.mapLeaves f = n.mapLeaves g := by
  induction h with
  | token t => rfl
  | @branch k cs hFills hChildren ih =>
    by_cases hk : k.isLeaf = true
    · rw [mapLeaves_leaf hk, mapLeaves_leaf hk, hfg k cs hk (.branch hFills hChildren)]
    · have hk : k.isLeaf = false := by simpa using hk
      rw [mapLeaves_branch hk, mapLeaves_branch hk]
      congr 1
      exact List.map_congr_left fun c hc => by rw [ih c hc]

theorem form_mapLeaves {f : Node → Node} (hf : EditsLeaves f) (n : Node) :
    (n.mapLeaves f).form = n.form := by
  cases n with
  | token t => rfl
  | branch k cs =>
    by_cases hk : k.isLeaf = true
    · rw [mapLeaves_leaf hk, hf.form hk]
      rfl
    · rw [mapLeaves_branch (by simpa using hk)]
      rfl

theorem wellFormed_mapLeaves {f : Node → Node} (hf : EditsLeaves f) {n : Node}
    (h : n.WellFormed) : (n.mapLeaves f).WellFormed := by
  induction h with
  | token t => exact .token t
  | @branch k cs hFills hChildren ih =>
    by_cases hk : k.isLeaf = true
    · rw [mapLeaves_leaf hk]
      exact hf.wellFormed hk (.branch hFills hChildren)
    · rw [mapLeaves_branch (by simpa using hk)]
      refine .branch ?_ ?_
      · have hTags : (cs.map fun c => (c.1, c.2.mapLeaves f)).map tag = cs.map tag := by
          rw [List.map_map]
          exact List.map_congr_left fun c _ => by simp [tag, form_mapLeaves hf]
        rw [hTags]
        exact hFills
      · intro c hc
        obtain ⟨d, hd, rfl⟩ := List.mem_map.mp hc
        exact ih d hd

-- ---------------------------------------------------------------------------
-- Replacing names and calls
-- ---------------------------------------------------------------------------

/-- A replacement that concerns nothing but names and calls. -/
structure OnlyLeaves (f : Node → Option Node) : Prop where
  token : ∀ t, f (.token t) = none
  branch : ∀ k cs, k.isLeaf = false → f (.branch k cs) = none

/-- Below a node of some forms stand only those that have a slot in them. -/
theorem WellFormed.form_walk {forms : List Form}
    (hClosed : ∀ k : NodeKind, k.form ∈ forms → ∀ s ∈ k.slots, ∀ form ∈ s.forms, form ∈ forms)
    {n : Node} (h : n.WellFormed) (hForm : n.form ∈ forms) : ∀ m ∈ n.walk, m.form ∈ forms := by
  induction h with
  | token t =>
    intro m hm
    rw [Node.walk, List.mem_singleton] at hm
    exact hm ▸ hForm
  | @branch k cs hFills _ ih =>
    intro m hm
    rw [Node.walk, walkOf_eq] at hm
    rcases List.mem_cons.mp hm with rfl | hm
    · exact hForm
    · obtain ⟨c, hc, hm⟩ := List.mem_flatMap.mp hm
      obtain ⟨s, hs, -, hSlot⟩ := hFills.mem (List.mem_map_of_mem hc)
      exact ih c hc (hClosed k hForm s hs _ hSlot) m hm

/-- The declarations that stand only at the top of a unit. -/
def headerForms : List Form := [.packageDeclaration, .importDeclaration, .unit]

theorem form_of_slot {k : NodeKind} (hk : k.form ∉ headerForms) {s : Slot} (hs : s ∈ k.slots)
    {form : Form} (hForm : form ∈ s.forms) : form ∉ headerForms := by
  revert form
  revert s
  cases k <;>
    simp_all [NodeKind.slots, NodeKind.form, headerForms, elementForms, memberForms]

/-- Below a node that is no header stand no headers. -/
theorem WellFormed.form_child {k : NodeKind} {cs : List (Field × Node)}
    (h : WellFormed (.branch k cs)) (hk : k.form ∉ headerForms) {c : Field × Node} (hc : c ∈ cs) :
    c.2.form ∉ headerForms := by
  obtain ⟨s, hs, -, hForm⟩ := h.fills.mem (List.mem_map_of_mem hc)
  exact form_of_slot hk hs hForm

/-- Below a node that is no header stand no headers, at any depth. -/
theorem WellFormed.form_below {n : Node} (h : n.WellFormed) (hForm : n.form ∉ headerForms) :
    ∀ m ∈ n.walk, m.form ∉ headerForms := by
  induction h with
  | token t =>
    intro m hm
    rw [Node.walk, List.mem_singleton] at hm
    exact hm ▸ hForm
  | @branch k cs hFills hChildren ih =>
    intro m hm
    rw [Node.walk, walkOf_eq] at hm
    rcases List.mem_cons.mp hm with rfl | hm
    · exact hForm
    · obtain ⟨c, hc, hm⟩ := List.mem_flatMap.mp hm
      exact ih c hc (form_child (.branch hFills hChildren) hForm hc) m hm

theorem replaceAllIn_eq (skip : NodeKind → Bool) (f : Node → Option Node)
    (cs : List (Field × Node)) :
    (replaceAllIn skip f cs).1 = cs.map fun c => (c.1, (c.2.replaceAll skip f).1) := by
  induction cs with
  | nil => rfl
  | cons c cs ih =>
    obtain ⟨g, n⟩ := c
    simp only [replaceAllIn, List.map_cons, ih]

theorem replaceAll_token (skip : NodeKind → Bool) {f : Node → Option Node} {t : Token}
    (h : f (.token t) = none) : ((Node.token t).replaceAll skip f).1 = .token t := by
  simp [replaceAll, h]

theorem replaceAll_branch {skip : NodeKind → Bool} {f : Node → Option Node} {k : NodeKind}
    {cs : List (Field × Node)} (h : f (.branch k cs) = none) :
    ((Node.branch k cs).replaceAll skip f).1 =
      if skip k then .branch k cs
      else .branch k (cs.map fun c => (c.1, (c.2.replaceAll skip f).1)) := by
  rw [replaceAll]
  split
  · rename_i n hn
    cases h.symm.trans hn
  · split
    · rfl
    · rw [← replaceAllIn_eq]

/-- Nothing happens where nothing is replaced. -/
theorem replaceAll_eq_self {skip : NodeKind → Bool} {f : Node → Option Node} {n : Node}
    (h : ∀ m ∈ n.walk, f m = none) : (n.replaceAll skip f).1 = n := by
  induction n using Node.induct with
  | token t => exact replaceAll_token skip (h _ (by simp [walk]))
  | branch k cs ih =>
    rw [replaceAll_branch (h _ (by simp [walk]))]
    split
    · rfl
    · congr 1
      refine (List.map_congr_left fun c hc => ?_).trans (List.map_id cs)
      rw [ih c hc fun m hm => h m (mem_walk_of_child hc hm)]
      rfl

/-- Below a name or a call stand only tokens. -/
theorem WellFormed.token_of_leaf {k : NodeKind} {cs : List (Field × Node)}
    (h : WellFormed (.branch k cs)) (hk : k.isLeaf = true) {c : Field × Node} (hc : c ∈ cs) :
    ∃ t, c.2 = .token t := by
  obtain ⟨s, hs, -, hForm⟩ := h.fills.mem (List.mem_map_of_mem hc)
  refine exists_token_of_form ?_
  cases k <;> simp_all [NodeKind.slots, NodeKind.isLeaf, tag]

/-- Replacing names and calls in a well-formed node none of whose kinds is skipped. -/
theorem replaceAll_visited {skip : NodeKind → Bool} {f : Node → Option Node} (hf : OnlyLeaves f)
    {n : Node} (h : n.WellFormed)
    (hSkip : ∀ k cs, (Node.branch k cs) ∈ n.walk → skip k = false) :
    (n.replaceAll skip f).1 = n.mapLeaves fun m => (f m).getD m := by
  induction h with
  | token t => exact replaceAll_token skip (hf.token t)
  | @branch k cs hFills hChildren ih =>
    have hFine : (Node.branch k cs).WellFormed := .branch hFills hChildren
    by_cases hk : k.isLeaf = true
    · rw [mapLeaves_leaf hk]
      cases hNew : f (.branch k cs) with
      | some m => simp only [replaceAll, hNew, Option.getD_some]
      | none =>
        -- the tokens below are no more replaced than the leaf itself
        refine replaceAll_eq_self ?_
        intro m hm
        rw [walk, walkOf_eq] at hm
        rcases List.mem_cons.mp hm with rfl | hm
        · exact hNew
        · obtain ⟨c, hc, hm⟩ := List.mem_flatMap.mp hm
          obtain ⟨t, ht⟩ := hFine.token_of_leaf hk hc
          rw [ht, walk, List.mem_singleton] at hm
          exact hm ▸ hf.token t
    · have hk : k.isLeaf = false := by simpa using hk
      rw [replaceAll_branch (hf.branch k cs hk), hSkip k cs (by simp [walk]), mapLeaves_branch hk]
      simp only [Bool.false_eq_true, if_false]
      congr 1
      refine List.map_congr_left fun c hc => ?_
      rw [ih c hc fun k' cs' hMem => hSkip k' cs' (mem_walk_of_child hc hMem)]

/-- Replacing names and calls in a well-formed node below the headers. -/
theorem replaceAll_leaves {skip : NodeKind → Bool} {f : Node → Option Node} (hf : OnlyLeaves f)
    (hSkip : ∀ k, k.form ∉ headerForms → skip k = false) {n : Node} (h : n.WellFormed)
    (hForm : n.form ∉ headerForms) :
    (n.replaceAll skip f).1 = n.mapLeaves fun m => (f m).getD m :=
  replaceAll_visited hf h fun k _ hMem => hSkip k (h.form_below hForm _ hMem)

-- ---------------------------------------------------------------------------
-- The trivia before the first token
-- ---------------------------------------------------------------------------

theorem withLeadingIn_cons (l : String) (f : Field) (n : Node) (cs : List (Field × Node)) :
    withLeadingIn l ((f, n) :: cs) = (f, n.withLeading l) :: cs := rfl

theorem withLeading_branch (l : String) (k : NodeKind) (cs : List (Field × Node)) :
    (Node.branch k cs).withLeading l = .branch k (withLeadingIn l cs) := rfl

@[simp] theorem form_withLeading (l : String) (n : Node) : (n.withLeading l).form = n.form := by
  cases n <;> rfl

@[simp] theorem withLeading_withLeading (l l' : String) (n : Node) :
    (n.withLeading l).withLeading l' = n.withLeading l' := by
  induction n using Node.induct with
  | token t => rfl
  | branch k cs ih =>
    cases cs with
    | nil => rfl
    | cons c cs =>
      obtain ⟨f, n⟩ := c
      rw [withLeading_branch, withLeading_branch, withLeading_branch, withLeadingIn_cons,
        withLeadingIn_cons, withLeadingIn_cons, ih (f, n) List.mem_cons_self]

/-- Some trivia are those that a node has already. -/
theorem exists_withLeading_eq_self (n : Node) : ∃ l, n.withLeading l = n := by
  induction n using Node.induct with
  | token t => exact ⟨t.leading, rfl⟩
  | branch k cs ih =>
    cases cs with
    | nil => exact ⟨"", rfl⟩
    | cons c cs =>
      obtain ⟨f, n⟩ := c
      obtain ⟨l, hl⟩ := ih (f, n) List.mem_cons_self
      exact ⟨l, by rw [withLeading_branch, withLeadingIn_cons, hl]⟩

/-- A child of a node with other trivia before it is that child, perhaps with other trivia. -/
theorem exists_field_withLeading (n : Node) (l : String) (f : Field) :
    ∃ l', (n.withLeading l).field? f = (n.field? f).map (withLeading l') := by
  have hSame : ∃ l', n.field? f = (n.field? f).map (withLeading l') := by
    cases n.field? f with
    | none => exact ⟨l, rfl⟩
    | some m =>
      obtain ⟨l', hl'⟩ := m.exists_withLeading_eq_self
      exact ⟨l', congrArg some hl'.symm⟩
  cases n with
  | token t => exact ⟨l, rfl⟩
  | branch k cs =>
    cases cs with
    | nil => exact ⟨l, rfl⟩
    | cons c cs =>
      obtain ⟨g, m⟩ := c
      by_cases hField : g = f
      · exact ⟨l, by simp [field?, withLeading, withLeadingIn, filed_cons, hField]⟩
      · obtain ⟨l', hl'⟩ := hSame
        refine ⟨l', Eq.trans ?_ hl'⟩
        simp [field?, withLeading, withLeadingIn, filed_cons, hField]

/-- Neither does a field get or lose children. -/
theorem isEmpty_field_withLeading (n : Node) (l : String) (f : Field) :
    ((n.withLeading l).field f).isEmpty = (n.field f).isEmpty := by
  cases n with
  | token t => rfl
  | branch k cs =>
    cases cs with
    | nil => rfl
    | cons c cs =>
      obtain ⟨g, m⟩ := c
      rw [withLeading_branch, withLeadingIn_cons, field_branch, field_branch, filed_cons, filed_cons]
      split <;> rfl

/-- The parts of a name do not depend on what stands before it. -/
theorem parts_withLeading (n : Node) (l : String) : (n.withLeading l).nameParts = n.nameParts := by
  cases n with
  | token t => rfl
  | branch k cs =>
    cases cs with
    | nil => rfl
    | cons c cs =>
      obtain ⟨g, m⟩ := c
      rw [withLeading_branch, withLeadingIn_cons, nameParts, nameParts, field_branch, field_branch,
        filed_cons, filed_cons]
      split
      · cases m with
        | token t => simp [withLeading, Token.withLeading, List.filterMap_cons]
        | branch k ds => simp [withLeading]
      · rfl

/-- The spelling of a token in a node does not depend on what stands before the node. -/
theorem map_text_tokenAt_withLeading (n : Node) (l : String) (f : Field) :
    ((n.withLeading l).tokenAt? f).map Token.text = (n.tokenAt? f).map Token.text := by
  cases n with
  | token t => rfl
  | branch k cs =>
    cases cs with
    | nil => rfl
    | cons c cs =>
      obtain ⟨g, m⟩ := c
      by_cases hField : g = f
      · cases m with
        | token t => simp [tokenAt?, field?, withLeading, withLeadingIn, filed_cons, hField,
            Token.withLeading]
        | branch k ds => simp [tokenAt?, field?, withLeading, withLeadingIn, filed_cons, hField]
      · simp [tokenAt?, field?, withLeading, withLeadingIn, filed_cons, hField]

/-- The name of a declaration does not depend on what stands before it. -/
@[simp] theorem declaredName_withLeading (n : Node) (l : String) :
    (n.withLeading l).declaredName = n.declaredName := by
  rw [declaredName, declaredName, map_text_tokenAt_withLeading]

/-- A node below one with other trivia before it is a node below that one, perhaps with other trivia
before it. -/
theorem exists_of_mem_walk_withLeading {n m : Node} {l : String}
    (h : m ∈ (n.withLeading l).walk) : ∃ n' ∈ n.walk, ∃ l', m = n'.withLeading l' := by
  induction n using Node.induct generalizing m with
  | token t =>
    rw [withLeading, walk, List.mem_singleton] at h
    exact ⟨.token t, by simp [walk], l, h⟩
  | branch k cs ih =>
    rw [withLeading_branch, walk, walkOf_eq] at h
    rcases List.mem_cons.mp h with rfl | h
    · exact ⟨.branch k cs, by simp [walk], l, rfl⟩
    · cases cs with
      | nil => cases h
      | cons c cs =>
        obtain ⟨f, n⟩ := c
        rw [withLeadingIn_cons, List.flatMap_cons] at h
        rw [walk, walkOf_eq, List.flatMap_cons]
        rcases List.mem_append.mp h with h | h
        · obtain ⟨n', hn', l', hEq⟩ := ih (f, n) List.mem_cons_self h
          exact ⟨n', List.mem_cons_of_mem _ (List.mem_append_left _ hn'), l', hEq⟩
        · obtain ⟨l', hl'⟩ := m.exists_withLeading_eq_self
          exact ⟨m, List.mem_cons_of_mem _ (List.mem_append_right _ h), l', hl'.symm⟩

theorem tags_withLeadingIn (l : String) (cs : List (Field × Node)) :
    (withLeadingIn l cs).map tag = cs.map tag := by
  cases cs with
  | nil => rfl
  | cons c cs => simp [withLeadingIn, tag]

theorem WellFormed.withLeading {n : Node} (h : n.WellFormed) (l : String) :
    (n.withLeading l).WellFormed := by
  induction h with
  | token t => exact .token _
  | @branch k cs hFills hChildren ih =>
    refine .branch (tags_withLeadingIn l cs ▸ hFills) ?_
    cases cs with
    | nil => simp [withLeadingIn]
    | cons c cs =>
      intro d hd
      rcases List.mem_cons.mp hd with rfl | hd
      · exact ih c List.mem_cons_self
      · exact hChildren d (List.mem_cons_of_mem _ hd)

/-- An edit of names and calls changes the trivia before a node as it would without them. -/
theorem exists_mapLeaves_withLeading {f : Node → Node} (hf : EditsLeaves f) {n : Node}
    (h : n.WellFormed) (l : String) :
    ∃ l', (n.withLeading l).mapLeaves f = (n.mapLeaves f).withLeading l' := by
  induction h with
  | token t => exact ⟨l, rfl⟩
  | @branch k cs hFills hChildren ih =>
    by_cases hk : k.isLeaf = true
    · rw [mapLeaves_leaf hk, withLeading_branch, mapLeaves_leaf hk]
      exact hf.leading hk (.branch hFills hChildren) l
    · have hk : k.isLeaf = false := by simpa using hk
      rw [mapLeaves_branch hk, withLeading_branch, mapLeaves_branch hk]
      cases cs with
      | nil => exact ⟨l, rfl⟩
      | cons c cs =>
        obtain ⟨g, n⟩ := c
        obtain ⟨l', hl'⟩ := ih (g, n) List.mem_cons_self
        refine ⟨l', ?_⟩
        rw [withLeadingIn_cons, List.map_cons, List.map_cons, withLeading_branch,
          withLeadingIn_cons, hl']

end Node

/-- The same nodes, but for the trivia before the first of them. -/
def Refronts (ns ms : List Node) : Prop := ∃ l, ms = ns.modifyHead (Node.withLeading l)

namespace Refronts

variable {ns ms rs : List Node}

theorem refl (ns : List Node) : Refronts ns ns := by
  cases ns with
  | nil => exact ⟨"", rfl⟩
  | cons n ns =>
    obtain ⟨l, hl⟩ := n.exists_withLeading_eq_self
    exact ⟨l, by rw [List.modifyHead_cons, hl]⟩

theorem cons (n : Node) (l : String) (ns : List Node) :
    Refronts (n :: ns) (n.withLeading l :: ns) := ⟨l, rfl⟩

theorem trans (h : Refronts ns ms) (h' : Refronts ms rs) : Refronts ns rs := by
  obtain ⟨l, rfl⟩ := h
  obtain ⟨l', rfl⟩ := h'
  cases ns with
  | nil => exact ⟨"", rfl⟩
  | cons n ns => exact ⟨l', by simp⟩

/-- Each of some refronted nodes is one of them, perhaps after other trivia. -/
theorem exists_of_mem (h : Refronts ns ms) {m : Node} (hm : m ∈ ms) :
    ∃ n ∈ ns, ∃ l, m = n.withLeading l := by
  obtain ⟨l, rfl⟩ := h
  cases ns with
  | nil => cases hm
  | cons n ns =>
    rcases List.mem_cons.mp hm with rfl | hm
    · exact ⟨n, List.mem_cons_self, l, rfl⟩
    · obtain ⟨l', hl'⟩ := m.exists_withLeading_eq_self
      exact ⟨m, List.mem_cons_of_mem _ hm, l', hl'.symm⟩

/-- An edit of names and calls does not mind what stands before the first of all. -/
theorem mapLeaves {f : Node → Node} (hf : Node.EditsLeaves f) (h : Refronts ns ms)
    (hFine : ∀ n ∈ ns, n.WellFormed) :
    Refronts (ns.map (Node.mapLeaves f)) (ms.map (Node.mapLeaves f)) := by
  obtain ⟨l, rfl⟩ := h
  cases ns with
  | nil => exact ⟨"", rfl⟩
  | cons n ns =>
    obtain ⟨l', hl'⟩ :=
      Node.exists_mapLeaves_withLeading hf (hFine n List.mem_cons_self) l
    exact ⟨l', by simp [hl']⟩

end Refronts

end SourceMigration
