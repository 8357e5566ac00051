import SourceMigration.Proofs.Parsing.Parsed
import SourceMigration.Proofs.Tree.Fresh
import SourceMigration.Proofs.Tree.Serviceable

/-!
# SourceMigration — a node in the order of its fields

A node can be seen in two ways: as children one after another, as they stand in the text, and as fields
under which children are filed. Printing, walking, and taking up or changing the trivia before a node can be
done in either way. By fields, the trivia before a node are those before the first child of the first field
that holds one, among the fields that can begin a node of its kind; a name or a run of elements that is
empty has none. On well-formed nodes the two ways come to the same, and other trivia before a node change
the first of its tokens and nothing else. What is not in the tokens is the skeleton of a node: its kind,
its fields, and what its names and calls denote.

## Results

* `WellFormed.walked`    — walking field by field is walking in the order of the text.
* `WellFormed.front`      — likewise for taking up and changing the trivia before a node.
* `views_agree`          — printing, walking and the trivia before a node agree.
-/

namespace SourceMigration

namespace Node

-- ---------------------------------------------------------------------------
-- Skeletons
-- ---------------------------------------------------------------------------

mutual

/-- The same tree with other tokens. -/
def mapTokens (f : Token → Token) : Node → Node
  | .token t => .token (f t)
  | .branch k cs => .branch k (mapTokensIn f cs)

/-- The same of every child. -/
def mapTokensIn (f : Token → Token) : List (Field × Node) → List (Field × Node)
  | [] => []
  | (g, n) :: cs => (g, n.mapTokens f) :: mapTokensIn f cs

end

theorem mapTokensIn_eq (f : Token → Token) (cs : List (Field × Node)) :
    mapTokensIn f cs = cs.map fun c => (c.1, c.2.mapTokens f) := by
  induction cs with
  | nil => rfl
  | cons c cs ih => rw [mapTokensIn, ih, List.map_cons]

theorem mapTokens_branch (f : Token → Token) (k : NodeKind) (cs : List (Field × Node)) :
    (branch k cs).mapTokens f = .branch k (cs.map fun c => (c.1, c.2.mapTokens f)) := by
  rw [mapTokens, mapTokensIn_eq]

/-- What a tree is apart from its tokens: the kinds of its nodes with what they denote, and the fields
under which they are filed. -/
def skeleton (n : Node) : Node := n.mapTokens fun _ => default

theorem skeleton_branch (k : NodeKind) (cs : List (Field × Node)) :
    (branch k cs).skeleton = .branch k (cs.map fun c => (c.1, c.2.skeleton)) :=
  mapTokens_branch _ k cs

/-- Other trivia before a node change nothing of its skeleton. -/
@[simp] theorem skeleton_withLeading (l : String) (n : Node) : (n.withLeading l).skeleton = n.skeleton := by
  induction n using Node.induct with
  | token t => rfl
  | branch k cs ih =>
    cases cs with
    | nil => rfl
    | cons c cs =>
      obtain ⟨f, n⟩ := c
      rw [withLeading_branch, withLeadingIn_cons, skeleton_branch, skeleton_branch, List.map_cons,
        List.map_cons,
        ih (f, n) List.mem_cons_self]

-- ---------------------------------------------------------------------------
-- Walking field by field
-- ---------------------------------------------------------------------------

mutual

/-- A node and all nodes below it, each before its children, and these field after field in the order of
its shape. -/
def walked : Node → List Node
  | .token t => [.token t]
  | .branch k cs =>
    .branch k cs :: k.shape.flatMap fun s =>
      (walkedIn cs).flatMap fun w => if w.1 = s.1 then w.2 else []

/-- The nodes met below each child, under its field. -/
def walkedIn : List (Field × Node) → List (Field × List Node)
  | [] => []
  | (f, n) :: cs => (f, n.walked) :: walkedIn cs

end

theorem walkedIn_eq (cs : List (Field × Node)) : walkedIn cs = cs.map fun c => (c.1, c.2.walked) := by
  induction cs with
  | nil => rfl
  | cons c cs ih => rw [walkedIn, ih, List.map_cons]

theorem flatMap_filed {α : Type} (f : Field) (g : Node → List α) (cs : List (Field × Node)) :
    (filed f cs).flatMap g = cs.flatMap fun c => if c.1 = f then g c.2 else [] := by
  induction cs with
  | nil => rfl
  | cons c cs ih =>
    obtain ⟨h, n⟩ := c
    by_cases hf : h = f <;> simp [filed_cons, hf, ih]

/-- Walking field by field is walking in the order of the text. -/
theorem WellFormed.walked {n : Node} (h : n.WellFormed) : n.walked = n.walk := by
  induction h with
  | token t => rfl
  | @branch k cs hFills _ ih =>
    have hFiled (f : Field) : ((walkedIn cs).flatMap fun w => if w.1 = f then w.2 else []) =
        (filed f cs).flatMap Node.walk := by
      rw [walkedIn_eq, List.flatMap_map, flatMap_filed]
      exact List.flatMap_congr fun c hc => by rw [ih c hc]
    have hOrder : walkOf cs = k.slots.flatMap fun s => (filed s.field cs).flatMap Node.walk := by
      conv_lhs => rw [walkOf_eq, (hFills.fieldwise (nodup_fields k)).1, List.flatMap_assoc]
      exact List.flatMap_congr fun s _ => List.flatMap_map _ _ _
    rw [Node.walked, Node.walk, hOrder, ← map_slots_eq_shape, List.flatMap_map]
    exact congrArg _ (List.flatMap_congr fun s _ => hFiled s.field)

/-- The token that a node is, if it is one. -/
def token? : Node → Option Token
  | .token t => some t
  | .branch _ _ => none

/-- The tokens met on a walk are those of the node. -/
theorem filterMap_walk (n : Node) : n.walk.filterMap token? = n.tokens := by
  induction n using Node.induct with
  | token t => rfl
  | branch k cs ih =>
    rw [walk, walkOf_eq, tokens, tokensOf_eq, List.filterMap_cons_none rfl, List.filterMap_flatMap]
    exact List.flatMap_congr ih

-- ---------------------------------------------------------------------------
-- Beginning field by field
-- ---------------------------------------------------------------------------

/-- The field that a node with such children begins with: the first that holds a child, of those that can
begin a node of its kind. -/
def frontField? (k : NodeKind) (cs : List (Field × Node)) : Option Field :=
  k.frontFields.find? fun f => cs.any fun c => c.1 == f

mutual

/-- The trivia before a node: those before the first child of the field that it begins with. -/
def frontLeading? : Node → Option String
  | .token t => some t.leading
  | .branch k cs => (frontField? k cs).bind fun f => frontLeadingAt? f cs

/-- The trivia before the first child filed under a field. -/
def frontLeadingAt? (f : Field) : List (Field × Node) → Option String
  | [] => none
  | (g, n) :: cs => if g = f then n.frontLeading? else frontLeadingAt? f cs

end

mutual

/-- The node with other trivia before the first child of the field that it begins with. -/
def withFrontLeading? (l : String) : Node → Option Node
  | .token t => some (.token (t.withLeading l))
  | .branch k cs => ((frontField? k cs).bind fun f => withFrontLeadingAt? l f cs).map (.branch k)

/-- The children with other trivia before the first filed under a field. -/
def withFrontLeadingAt? (l : String) (f : Field) : List (Field × Node) → Option (List (Field × Node))
  | [] => none
  | (g, n) :: cs =>
    if g = f then (n.withFrontLeading? l).map fun m => (g, m) :: cs
    else (withFrontLeadingAt? l f cs).map ((g, n) :: ·)

end

/-- The first of some children that fill slots is filed under the first field that holds a child, of
those that the node can begin with. -/
theorem find_fronts {ss out : List Slot} {t : Field × Form} {ts : List (Field × Form)}
    (hNodup : (ss.map Slot.field).Nodup) (h : Fills ss (t :: ts) out) :
    (fronts ss).find? (fun f => (t :: ts).any fun u => u.1 == f) = some t.1 := by
  generalize hAll : t :: ts = all at h
  induction h with
  | refl => cases hAll
  | @skip s ss us out hSkip hFills ih =>
    subst hAll
    rw [List.map_cons, List.nodup_cons] at hNodup
    have hNone : ((t :: ts).any fun u => u.1 == s.field) = false := by
      refine List.any_eq_false.mpr fun u hu hSame => ?_
      obtain ⟨s', hs', hField, -⟩ := hFills.mem hu
      exact hNodup.1 (eq_of_beq hSame ▸ hField ▸ List.mem_map_of_mem hs')
    rw [fronts, if_neg hSkip, List.find?_cons, hNone]
    exact ih hNodup.2 rfl
  | @single s ss us out form | @further s ss us out form =>
    obtain ⟨rfl, rfl⟩ := List.cons.inj hAll
    have hFirst : (((s.field, form) :: ts).any fun u => u.1 == s.field) = true := by simp
    rw [fronts]
    split
    · rw [List.find?_singleton, if_pos hFirst]
    · rw [List.find?_cons, hFirst]

theorem frontField_of_fills {k : NodeKind} {c : Field × Node} {cs : List (Field × Node)}
    (h : Fills k.slots ((c :: cs).map tag) []) : frontField? k (c :: cs) = some c.1 := by
  have hFound := find_fronts (nodup_fields k) (List.map_cons ▸ h)
  rw [fronts_slots] at hFound
  simpa [frontField?, tag, Function.comp_def] using hFound

/-- No name and no run of elements is empty, here and below. -/
def Filled (n : Node) : Prop :=
  ∀ m ∈ n.walk, m.form ∈ [Form.name, .statement] → m.children ≠ []

theorem Filled.child {k : NodeKind} {cs : List (Field × Node)} (h : (branch k cs).Filled) {c : Field × Node}
    (hc : c ∈ cs) : c.2.Filled :=
  fun m hm => h m (mem_walk_of_child hc hm)

/-- Nothing is empty in a sturdy tree. -/
theorem Sturdy.filled {n : Node} (h : n.Sturdy) : n.Filled := by
  intro m hm hForm hNone
  cases m with
  | token t => simp [form] at hForm
  | branch k cs =>
    obtain rfl : cs = [] := hNone
    have hIntact := (h.walk _ hm).intact
    cases k with
    | name _ =>
      obtain ⟨t, links, hChain, -⟩ := hIntact
      cases hChain
    | statement => exact hIntact rfl
    | _ => simp [form, NodeKind.form] at hForm

/-- A node has children where its names and runs do. -/
theorem WellFormed.children_ne {k : NodeKind} {cs : List (Field × Node)}
    (h : (Node.branch k cs).WellFormed) (hFilled : (Node.branch k cs).Filled) : cs ≠ [] := by
  rintro rfl
  have hNone := multiplicity_of_fills h.fills
  have hSelf : Node.branch k [] ∈ (Node.branch k []).walk := List.mem_cons_self
  cases k with
  | name _ | statement => exact hFilled _ hSelf (by simp [form, NodeKind.form]) rfl
  | _ => exact absurd hNone (by simp [NodeKind.slots])

/-- What is done field by field at the beginning of a node is done in the order of the text. -/
theorem WellFormed.front {n : Node} (h : n.WellFormed) (hFilled : n.Filled) :
    n.Fronted ∧ n.frontLeading? = some n.leading ∧ ∀ l, n.withFrontLeading? l = some (n.withLeading l) := by
  induction h with
  | token t => exact ⟨.token t, rfl, fun l => rfl⟩
  | @branch k cs hFills hChildren ih =>
    obtain ⟨⟨f, n⟩, cs, rfl⟩ := List.exists_cons_of_ne_nil
      (WellFormed.children_ne (.branch hFills hChildren) hFilled)
    have hField : frontField? k ((f, n) :: cs) = some f := frontField_of_fills hFills
    obtain ⟨hFronted, hLeading, hWith⟩ := ih (f, n) List.mem_cons_self (hFilled.child List.mem_cons_self)
    refine ⟨.branch hFronted, ?_, fun l => ?_⟩
    · rw [frontLeading?, hField, Option.bind_some, frontLeadingAt?, if_pos rfl, hLeading,
        hFronted.leading_branch]
    · rw [withFrontLeading?, hField, Option.bind_some, withFrontLeadingAt?, if_pos rfl, hWith,
        withLeading_branch,
        withLeadingIn_cons]
      rfl

/-- Field by field or in the order of the text, a node is printed, walked and begun in the same way. What is
printed are the tokens met on the walk, the trivia before the node are those before the first of them, and
with other trivia before it the node has the same skeleton and the same tokens, but for the trivia before the
first. -/
theorem views_agree {n : Node} (h : n.WellFormed) (hFilled : n.Filled) :
    (n.printed = n.text ∧ n.walked = n.walk ∧ n.frontLeading? = some n.leading ∧
        ∀ l, n.withFrontLeading? l = some (n.withLeading l)) ∧
      n.text = sourceOf (n.walk.filterMap token?) ∧
      ∃ t ts, n.walk.filterMap token? = t :: ts ∧ n.leading = t.leading ∧
        ∀ l, (n.withLeading l).skeleton = n.skeleton ∧
          (n.withLeading l).walk.filterMap token? = t.withLeading l :: ts := by
  obtain ⟨hFronted, hLeading, hWith⟩ := h.front hFilled
  obtain ⟨t, ts, hTokens⟩ := hFronted.exists_tokens
  have hSelf := hTokens n.leading
  rw [hFronted.withLeading_leading] at hSelf
  refine ⟨⟨h.printed, h.walked, hLeading, hWith⟩, ?_, t.withLeading n.leading, ts, ?_, rfl,
    fun l => ⟨?_, ?_⟩⟩
  · rw [filterMap_walk, text]
  · rw [filterMap_walk, hSelf]
  · exact skeleton_withLeading l n
  · rw [filterMap_walk, hTokens]
    rfl
open Draft in
/-- A class in a package, with a generic supertype, a method and a call. -/
def varied : Sample := .ofDraft (node "program" [
  blockComment "/* a */",
  packageOf ["p"] " ",
  importing ["R", "q"] "\n",
  node "class_declaration" [
    node "modifiers" [node "marker_annotation" [sign "@" "\n", under "name" (word "B")]],
    sign "class" " ", under "name" (word "A" " "),
    under "superclass" (node "superclass" [sign "extends" " ",
      node "generic_type" [typeWord "C" " ", node "type_arguments" [sign "<", typeWord "D", sign ">"]]]),
    under "body" (braced "class_body" [
      methodOf (wholeType "\n  ") "e" [] (braced "block" [
        returning (callOn (word "R" " ") "f" [leaf "decimal_integer_literal" true "1" ""])])]
      " " "\n")]]) "\n"

set_option maxRecDepth 100000 in
theorem views_agree_varied :
    ∃ n, varied.unit? = some n ∧ n.WellFormed ∧ n.Filled ∧
      (n.printed = n.text ∧ n.walked = n.walk ∧ n.frontLeading? = some n.leading ∧
        ∀ l, n.withFrontLeading? l = some (n.withLeading l)) ∧
      n.text = sourceOf (n.walk.filterMap token?) ∧
      ∃ t ts, n.walk.filterMap token? = t :: ts ∧ n.leading = t.leading ∧
        ∀ l, (n.withLeading l).skeleton = n.skeleton ∧
          (n.withLeading l).walk.filterMap token? = t.withLeading l :: ts := by
  obtain ⟨n, hUnit⟩ := Option.isSome_iff_exists.mp (show varied.unit?.isSome = true by decide +kernel)
  have hSturdy := (Parsing.fresh_of_sample (by decide +kernel) hUnit).sturdy
  exact ⟨n, hUnit, hSturdy.wellFormed, hSturdy.filled, views_agree hSturdy.wellFormed hSturdy.filled⟩

end Node

end SourceMigration
