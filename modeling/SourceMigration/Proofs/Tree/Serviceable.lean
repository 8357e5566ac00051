import SourceMigration.Proofs.Tree.Sturdy

/-!
# SourceMigration — what can be done with a sturdy node

Printing a node asks for a child in every field that must hold one. Moving it, and telling what
stands before it, go down through first children to a token. A name is listed by its last part, and
a name that is divided is cut at a point that is told by a number. Renaming a method or a call asks
for the token of its name. None of this can fail on a sturdy node.

## Results

* `mem_fronts`          — the first of some children that fill slots begins the node.
* `Sturdy.serviceable`  — what can be done with a sturdy node.
-/

namespace SourceMigration

-- ---------------------------------------------------------------------------
-- First children
-- ---------------------------------------------------------------------------

/-- The slots before the first that must hold a child, and that one. -/
def fronts : List Slot → List Field
  | [] => []
  | s :: ss => if s.multiplicity = .one then [s.field] else s.field :: fronts ss

/-- These are the fields whose first child begins a node. -/
theorem fronts_slots (k : NodeKind) : fronts k.slots = k.frontFields := by
  cases k <;> rfl

/-- The first of some children that fill slots stands in one of these. -/
theorem mem_fronts {ss out : List Slot} {t : Field × Form} {ts : List (Field × Form)}
    (h : Fills ss (t :: ts) out) : t.1 ∈ fronts ss := by
  generalize hAll : t :: ts = all at h
  induction h with
  | refl => cases hAll
  | skip hSkip _ ih =>
    rw [fronts, if_neg hSkip]
    exact List.mem_cons_of_mem _ (ih hAll)
  | single | further =>
    obtain ⟨rfl, -⟩ := List.cons.inj hAll
    rw [fronts]
    split <;> exact List.mem_cons_self

/-- Nothing fills a slot that must hold a child. -/
theorem multiplicity_of_fills {ss : List Slot} (h : Fills ss [] []) :
    ∀ s ∈ ss, s.multiplicity ≠ .one := by
  generalize hNone : ([] : List (Field × Form)) = ts at h
  generalize hOut : ([] : List Slot) = out at h
  induction h with
  | refl => simp [← hOut]
  | skip hSkip _ ih => exact List.forall_mem_cons.mpr ⟨hSkip, ih hNone hOut⟩
  | single | further => cases hNone

namespace Node

variable {k : NodeKind} {cs : List (Field × Node)} {n : Node}

/-- A sturdy node has a first child, in one of the fields that begin it. -/
theorem Sturdy.exists_first (h : Sturdy (.branch k cs)) :
    ∃ f n ds, cs = (f, n) :: ds ∧ f ∈ k.frontFields := by
  have hFills := h.wellFormed.fills
  cases cs with
  | cons c ds =>
    obtain ⟨f, n⟩ := c
    exact ⟨f, n, ds, rfl, fronts_slots k ▸ mem_fronts hFills⟩
  | nil =>
    have hNone := multiplicity_of_fills hFills
    cases k with
    | name t =>
      obtain ⟨t, links, hChain, -⟩ := h.intact
      cases hChain
    | statement => exact absurd rfl h.intact
    | _ => exact absurd hNone (by simp [NodeKind.slots])

theorem Sturdy.fronted (h : n.Sturdy) : n.Fronted := by
  induction h with
  | token t => exact .token t
  | @branch k cs hFills hIntact hSpelled hChildren ih =>
    obtain ⟨f, n, ds, rfl, -⟩ := (Sturdy.branch hFills hIntact hSpelled hChildren).exists_first
    exact .branch (ih (f, n) List.mem_cons_self)

theorem Sturdy.frontDefect (h : n.Sturdy) : n.frontDefect? = none := by
  induction h with
  | token t => rfl
  | @branch k cs hFills hIntact hSpelled hChildren ih =>
    obtain ⟨f, n, ds, rfl, hFront⟩ := (Sturdy.branch hFills hIntact hSpelled hChildren).exists_first
    simp only [frontDefect?, List.contains_eq_mem, hFront, decide_true, if_true]
    exact ih (f, n) List.mem_cons_self

-- ---------------------------------------------------------------------------
-- Children that must be there
-- ---------------------------------------------------------------------------

theorem completeAll_eq (cs : List (Field × Node)) :
    completeAll cs = cs.all fun c => c.2.complete := by
  induction cs with
  | nil => rfl
  | cons c cs ih => rw [completeAll, ih, List.all_cons]

/-- Every field of a well-formed node that must hold a child does. -/
theorem WellFormed.complete (h : n.WellFormed) : n.complete = true := by
  induction h with
  | token t => rfl
  | @branch k cs hFills hChildren ih =>
    rw [Node.complete, completeAll_eq, Bool.and_eq_true, List.all_eq_true, List.all_eq_true]
    refine ⟨fun s hs => ?_, fun c hc => ih c hc⟩
    rw [← map_slots_eq_shape] at hs
    obtain ⟨slot, hSlot, rfl⟩ := List.mem_map.mp hs
    rw [Bool.or_eq_true, bne_iff_ne, or_iff_not_imp_left, not_not]
    intro hOne
    obtain ⟨-, -, hSlots⟩ := hFills.fieldwise (nodup_fields k)
    have hAdmits := (hSlots slot hSlot).1
    rw [show slot.multiplicity = .one from hOne] at hAdmits
    obtain ⟨m, hm⟩ := exists_of_admits_one hAdmits
    have hMem : (slot.field, m) ∈ cs := mem_of_mem_filed (hm ▸ List.mem_singleton_self m)
    exact List.any_eq_true.mpr ⟨_, hMem, beq_self_eq_true _⟩

/-- The token of its name is there in a method, and in a call. -/
theorem WellFormed.relabelled (h : n.WellFormed) (hForm : n.form ∈ [Form.token, .call, .method])
    (new : String) : (n.relabelled? new).isSome := by
  cases n with
  | token t => rfl
  | branch k cs =>
    cases k with
    | call m =>
      obtain ⟨t, rfl⟩ := h.exists_callee
      rfl
    | method =>
      obtain ⟨t, ht⟩ := h.exists_filed_token (f := .name) (by simp [NodeKind.slots])
      simp [relabelled?, tokenAt?, field?, ht]
    | _ => simp [form, NodeKind.form] at hForm

-- ---------------------------------------------------------------------------
-- Parts of names
-- ---------------------------------------------------------------------------

/-- Between each two parts of a name stands a point. -/
theorem Sturdy.length_name {type : Option TypeName} (h : Sturdy (.branch (.name type) cs)) :
    cs.length + 1 = 2 * (Node.branch (.name type) cs).nameParts.length := by
  obtain ⟨ts, rfl, ⟨t, links, rfl, ht, hLinks⟩, -⟩ := h.exists_chain
  have hLinked := length_links hLinks
  rw [← nameOf, nameParts_nameOf, List.filterMap_cons, if_pos ht, List.length_map, List.length_cons,
    List.length_cons]
  omega

/-- What the operations on a node ask of it. -/
structure Serviceable (n : Node) : Prop where
  /-- It can be printed, and prints as its text. -/
  complete : n.complete = true
  printed : n.printed = n.text
  /-- It begins with a token, the trivia before which are the trivia before the node. -/
  front : n.frontDefect? = none
  moved : ∀ l, (n.withLeading l).leading = l
  /-- A name has a last part by which it is listed. -/
  label : n.labelDefect? = none
  /-- A name can be cut behind each of its parts but the last. -/
  cut : n.form = .name → ∀ count < n.nameParts.length - 1, n.children.drop (2 * count + 1) ≠ []
  /-- A token, a call and a method can be given another label. -/
  relabelled : n.form ∈ [Form.token, .call, .method] → ∀ new, (n.relabelled? new).isSome

/-- All this can be done with a sturdy node. -/
theorem Sturdy.serviceable (h : n.Sturdy) : n.Serviceable where
  complete := h.wellFormed.complete
  printed := h.wellFormed.printed
  front := h.frontDefect
  moved := h.fronted.leading_withLeading
  label := by
    cases n with
    | token t => rfl
    | branch k cs =>
      cases k with
      | name type =>
        have hLength := h.length_name
        have hParts : (Node.branch (.name type) cs).nameParts.isEmpty = false := by
          rw [List.isEmpty_eq_false_iff, ← List.length_pos_iff]
          omega
        rw [labelDefect?, hParts]
        rfl
      | _ => rfl
  cut hForm count hCount := by
    obtain ⟨type, cs, rfl⟩ := exists_name hForm
    have hLength := h.length_name
    rw [children, ne_eq, List.drop_eq_nil_iff]
    omega
  relabelled := h.wellFormed.relabelled

end Node

end SourceMigration
