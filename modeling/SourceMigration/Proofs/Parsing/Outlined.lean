import Mathlib.Data.List.Forall2
import SourceMigration.Proofs.Parsing.Shapes

/-!
# SourceMigration — nodes of one shape

The outline of a node is what is left if the places in the text are forgotten, and the numbers by which nodes
are told from one another. Two nodes of one outline are made of as many parts, which have one outline each,
and what is found in a field of the one has the same place as what is found there in the other.

## Results

* `Alike.parts` — what two nodes of one shape are made of.
-/

namespace SourceMigration

namespace Concrete

-- ---------------------------------------------------------------------------
-- Shapes
-- ---------------------------------------------------------------------------

mutual

/-- A node without what tells where it stands, and which it is. -/
def outline : Concrete → Concrete
  | .node i cs => .node ⟨i.type, 0, i.isNamed, i.isMissing, 0, 0, 0, 0⟩ (outlines cs)

/-- The same of several nodes. -/
def outlines : List (Option String × Concrete) → List (Option String × Concrete)
  | [] => []
  | (f, n) :: cs => (f, n.outline) :: outlines cs

end

theorem outlines_eq (cs : List (Option String × Concrete)) :
    outlines cs = cs.map fun c => (c.1, c.2.outline) := by
  induction cs with
  | nil => rfl
  | cons c cs ih => rw [outlines, ih, List.map_cons]

@[simp] theorem type_outline (n : Concrete) : n.outline.type = n.type := by
  cases n
  rfl

@[simp] theorem isNamed_outline (n : Concrete) : n.outline.info.isNamed = n.info.isNamed := by
  cases n
  rfl

@[simp] theorem isComment_outline (n : Concrete) : n.outline.isComment = n.isComment := by
  rw [isComment, isComment, type_outline]

theorem children_outline (n : Concrete) :
    n.outline.children = n.children.map fun c => (c.1, c.2.outline) := by
  cases n
  exact outlines_eq _

@[simp] theorem isLeaf_outline (n : Concrete) : n.outline.isLeaf = n.isLeaf := by
  rw [isLeaf, isLeaf, children_outline, List.isEmpty_map]

theorem parts_outline (n : Concrete) : n.outline.parts = n.parts.map outline := by
  simp only [parts, children_outline, List.map_map, List.filter_map, Function.comp_def, isComment_outline]

@[simp] theorem isName_outline (n : Concrete) : n.outline.isName = n.isName := by
  induction n using Concrete.induct with
  | node i cs ih =>
    simp only [outline, isName, areNames_eq, outlines_eq, List.isEmpty_map, List.all_map]
    have hAll : (cs.all ((fun c => c.2.isName) ∘ fun c => (c.1, c.2.outline))) =
        cs.all fun c => c.2.isName := by
      rw [Bool.eq_iff_iff, List.all_eq_true, List.all_eq_true]
      exact forall₂_congr fun c hc => by rw [Function.comp_apply, ih c hc]
    rw [hAll]

@[simp] theorem isTypeTree?_outline (n : Concrete) : n.outline.isTypeTree? = n.isTypeTree? := by
  simp only [isTypeTree?, type_outline, isName_outline, parts_outline, List.head?_map, Option.map_map]
  congr 2
  exact Option.map_congr fun c _ => isName_outline c

theorem leaves_outline (n : Concrete) : n.outline.leaves = n.leaves.map outline := by
  induction n using Concrete.induct with
  | node i cs ih =>
    simp only [outline, leaves, leavesOf_eq, outlines_eq, List.isEmpty_map, List.flatMap_map]
    split
    · rfl
    · split
      · rename_i hNone
        rw [List.isEmpty_iff.mp hNone]
        simp [outline, outlines]
      · rw [List.map_flatMap]
        exact List.flatMap_congr ih

theorem areBraced_outline (ns : List Concrete) : areBraced (ns.map outline) = areBraced ns := by
  simp [areBraced, Option.any_map]

-- ---------------------------------------------------------------------------
-- Nodes of one shape
-- ---------------------------------------------------------------------------

/-- No two children of a node are told by one number, here and below. -/
def Distinct (n : Concrete) : Prop := ∀ m ∈ n.nodes, (m.children.map (·.2.info.id)).Nodup

/-- Two nodes of one shape. -/
structure Alike (n m : Concrete) : Prop where
  outline : n.outline = m.outline
  distinct : n.Distinct
  distinct_right : m.Distinct

/-- Children of two nodes at the same place, and whether either is found in a field. -/
structure AlikeIn (n m c d : Concrete) : Prop where
  alike : c.Alike d
  isSame : ∀ field, c.isSame (n.field? field) = d.isSame (m.field? field)

theorem Distinct.child {n : Concrete} (h : n.Distinct) {c : Option String × Concrete} (hc : c ∈ n.children) :
    c.2.Distinct := by
  refine fun m hm => h m ?_
  rw [nodes_eq]
  exact List.mem_cons_of_mem _ (inside_eq n ▸ List.mem_flatMap.mpr ⟨c, hc, hm⟩)

/-- Where children have the same fields, what is found in a field has the same place among them. -/
theorem forall_isSame {cs ds : List (Option String × Concrete)}
    (h : List.Forall₂ (fun c d => c.1 = d.1) cs ds)
    (hcs : (cs.map (·.2.info.id)).Nodup) (hds : (ds.map (·.2.info.id)).Nodup) (field : String) :
    List.Forall₂ (fun c d => c.2.isSame ((cs.find? (·.1 == some field)).map Prod.snd) =
      d.2.isSame ((ds.find? (·.1 == some field)).map Prod.snd)) cs ds := by
  have hOther {c : Option String × Concrete} {cs : List (Option String × Concrete)}
      (hNodup : ((c :: cs).map (·.2.info.id)).Nodup) :
      c.2.isSame ((cs.find? (·.1 == some field)).map Prod.snd) =
        false ∧ ∀ d ∈ cs, d.2.isSame (some c.2) = false := by
    rw [List.map_cons, List.nodup_cons] at hNodup
    have hNe (d) (hd : d ∈ cs) : d.2.info.id ≠ c.2.info.id :=
      fun hEq => hNodup.1 (hEq ▸ List.mem_map_of_mem (f := (·.2.info.id)) hd)
    constructor
    · cases hFind : cs.find? (·.1 == some field) with
      | none => rfl
      | some d => simpa [isSame] using hNe d (List.mem_of_find?_eq_some hFind)
    · intro d hd
      simpa [isSame] using (hNe d hd).symm
  induction h with
  | nil => exact .nil
  | @cons c d cs ds hField hRest ih =>
    obtain ⟨hc, hcs'⟩ := hOther hcs
    obtain ⟨hd, hds'⟩ := hOther hds
    rw [List.map_cons, List.nodup_cons] at hcs hds
    rw [List.find?_cons, List.find?_cons, ← hField]
    cases hHere : c.1 == some field with
    | true =>
      -- what follows is not what was found
      refine .cons (by simp [isSame]) (List.forall₂_iff_zip.mpr ⟨hRest.length_eq, fun {x y} hxy => ?_⟩)
      obtain ⟨hx, hy⟩ := List.of_mem_zip hxy
      exact (hcs' x hx).trans (hds' y hy).symm
    | false => exact .cons (hc.trans hd.symm) (ih hcs.2 hds.2)

/-- What two nodes of one outline are made of, if it is told apart. -/
theorem forall_alike {n m : Concrete} (h : n.outline = m.outline) (hn : ∀ c ∈ n.parts, c.Distinct)
    (hm : ∀ d ∈ m.parts, d.Distinct) : List.Forall₂ Alike n.parts m.parts := by
  have hParts := congrArg parts h
  rw [parts_outline, parts_outline, ← List.forall₂_eq_eq_eq, List.forall₂_map_left_iff,
    List.forall₂_map_right_iff, List.forall₂_iff_zip] at hParts
  refine List.forall₂_iff_zip.mpr ⟨hParts.1, fun {c d} hcd => ⟨hParts.2 hcd, ?_, ?_⟩⟩
  · exact hn c (List.of_mem_zip hcd).1
  · exact hm d (List.of_mem_zip hcd).2

/-- What two nodes of one shape are made of. -/
theorem Alike.parts {n m : Concrete} (h : n.Alike m) : List.Forall₂ (AlikeIn n m) n.parts m.parts := by
  have hChildren := congrArg children h.outline
  rw [children_outline, children_outline, ← List.forall₂_eq_eq_eq, List.forall₂_map_left_iff,
    List.forall₂_map_right_iff] at hChildren
  have hSame (field : String) := forall_isSame (hChildren.imp fun c d hcd => congrArg Prod.fst hcd)
    (h.distinct n (mem_nodes_self n)) (h.distinct_right m (mem_nodes_self m)) field
  have hAll : List.Forall₂ (fun c d => AlikeIn n m c.2 d.2) n.children m.children := by
    refine List.forall₂_iff_zip.mpr ⟨hChildren.length_eq, fun {c d} hcd => ⟨⟨?_, ?_, ?_⟩, fun field => ?_⟩⟩
    · exact congrArg Prod.snd ((List.forall₂_iff_zip.mp hChildren).2 hcd)
    · exact h.distinct.child (List.of_mem_zip hcd).1
    · exact h.distinct_right.child (List.of_mem_zip hcd).2
    · exact (List.forall₂_iff_zip.mp (hSame field)).2 hcd
  refine List.rel_filter (R := AlikeIn n m) (fun c d hcd => ?_)
    (List.forall₂_map_left_iff.mpr (List.forall₂_map_right_iff.mpr hAll))
  have hComment := congrArg isComment hcd.alike.outline
  rw [isComment_outline, isComment_outline] at hComment
  simp only [hComment]

section Alike

variable {n m c d : Concrete} (h : n.Alike m)

include h

theorem Alike.type_eq : n.type = m.type := by
  rw [← type_outline, h.outline, type_outline]

theorem Alike.isNamed_eq : n.info.isNamed = m.info.isNamed := by
  rw [← isNamed_outline, h.outline, isNamed_outline]

theorem Alike.isComment_eq : n.isComment = m.isComment := by
  rw [isComment, isComment, h.type_eq]

theorem Alike.isLeaf_eq : n.isLeaf = m.isLeaf := by
  rw [← isLeaf_outline, h.outline, isLeaf_outline]

theorem Alike.isName_eq : n.isName = m.isName := by
  rw [← isName_outline, h.outline, isName_outline]

theorem Alike.isTypeTree?_eq : n.isTypeTree? = m.isTypeTree? := by
  rw [← isTypeTree?_outline, h.outline, isTypeTree?_outline]

theorem Alike.isNone_field (field : String) : (n.field? field).isNone = (m.field? field).isNone := by
  have hOutline (n : Concrete) : (n.outline.field? field).isNone = (n.field? field).isNone := by
    simp [field?, children_outline, List.find?_map, Function.comp_def]
  rw [← hOutline, h.outline, hOutline]

theorem Alike.outline_parts : n.parts.map Concrete.outline = m.parts.map Concrete.outline := by
  rw [← parts_outline, h.outline, parts_outline]

theorem Alike.areBraced_eq : areBraced n.parts = areBraced m.parts := by
  rw [← areBraced_outline, h.outline_parts, areBraced_outline]

theorem Alike.length_leaves : n.leaves.length = m.leaves.length := by
  rw [← List.length_map (f := Concrete.outline), ← leaves_outline, h.outline, leaves_outline, List.length_map]

end Alike

end Concrete

end SourceMigration
