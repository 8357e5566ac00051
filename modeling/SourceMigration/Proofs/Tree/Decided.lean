import SourceMigration.Proofs.Tree.Occurrences
import SourceMigration.Tree.Revision

/-!
# SourceMigration — decisions at places

A revision asks twice about every node that it visits: whether to go on to the children, and what takes
the place of the node. With the answers filed under the places they are about, the visit is a matter of
the tree alone: which nodes it enters and leaves, in which order, and what it makes of them.

## Results

* `entered_steps`, `left_steps` — a visit enters and leaves the occurrences that it reaches.
* `updated_snd`                 — a node is changed if something below it is replaced.
* `updated_eq_self`             — and if it is not changed, it is the node it was.
* `updated_of_leave`            — a node is left as the answers about the nodes below it make it.
* `alters_eq`                   — and a node that is visited is changed if one of those is replaced.
-/

namespace SourceMigration

/-- Whether something else takes the place of a node. -/
def Replacement.replaces : Replacement → Bool
  | .same => false
  | .node _ | .nothing | .several _ => true

/-- Whether a node cannot be replaced so where it stands: the root must stay one node, and several nodes
need a field that holds any number. -/
def Occurrence.refuses (o : Occurrence) : Replacement → Bool
  | .same | .node _ => false
  | .nothing => o.holder.isNone
  | .several _ =>
    match o.holder with
    | some (.branch k _, f) => !k.isMany f
    | some (.token _, _) | none => true

namespace Revision

/-- What stands in a field where a node stood. -/
def Outcome.inField (f : Field) (n : Node) : Outcome → List (Field × Node) × Bool
  | .kept => ([(f, n)], false)
  | .replaced m => ([(f, m)], true)
  | .removed => ([], true)
  | .spread ns => (ns.map fun m => (f, m), true)

/-- Answers about the nodes of a tree, by their paths. -/
structure Decisions where
  /-- Whether the children of a node are visited. -/
  descends : List Nat → Bool
  /-- What takes the place of a node. -/
  reply : List Nat → Replacement

/-- One step of a visit. -/
inductive Step where
  | enter (o : Occurrence)
  /-- The node is left as `updated`, and `changed` tells whether anything below it was replaced. -/
  | leave (o : Occurrence) (updated : Node) (changed : Bool)

namespace Step

/-- The occurrence that is entered in a step. -/
def entered? : Step → Option Occurrence
  | .enter o => some o
  | .leave _ _ _ => none

/-- The occurrence that is left in a step. -/
def left? : Step → Option Occurrence
  | .enter _ => none
  | .leave o _ _ => some o

/-- A step in the child at position `i`, as one of the whole visit. -/
def under (i : Nat) : Step → Step
  | .enter o => .enter (o.under i)
  | .leave o updated changed => .leave (o.under i) updated changed

end Step

namespace Decisions

-- ---------------------------------------------------------------------------
-- Visits by decisions
-- ---------------------------------------------------------------------------

/-- The answers about the nodes below a path, seen from the node there. -/
def seenFrom (d : Decisions) (path : List Nat) : Decisions :=
  ⟨fun below => d.descends (path ++ below), fun below => d.reply (path ++ below)⟩

/-- The answers about the nodes in the child at position `i`. -/
def under (d : Decisions) (i : Nat) : Decisions := d.seenFrom [i]

/-- Whether a node is visited: no node above it is skipped. -/
def reaches (d : Decisions) (path : List Nat) : Bool :=
  (List.range path.length).all fun i => d.descends (path.take i)

/-- Whether the node at a path is visited and replaced. -/
def replaces (d : Decisions) (path : List Nat) : Bool := d.reaches path && (d.reply path).replaces

/-- Whether anything below a node is replaced. -/
def alters (d : Decisions) (o : Occurrence) : Bool :=
  o.node.descendants.any fun below => d.replaces (o.path ++ below.path)

mutual

/-- A node after the visit of its children, and whether any of them was replaced. -/
def updated (d : Decisions) : Node → Node × Bool
  | .token t => (.token t, false)
  | .branch k cs =>
    if d.descends [] then (.branch k (d.updatedIn 0 cs).1, (d.updatedIn 0 cs).2)
    else (.branch k cs, false)

/-- The same of children, of which the first has position `i`. -/
def updatedIn (d : Decisions) (i : Nat) : List (Field × Node) → List (Field × Node) × Bool
  | [] => ([], false)
  | (f, n) :: cs =>
    let after := (d.under i).updated n
    let front := (Outcome.ofReplacement after.1 after.2 ((d.under i).reply [])).inField f n
    (front.1 ++ (d.updatedIn (i + 1) cs).1, front.2 || (d.updatedIn (i + 1) cs).2)

end

/-- What becomes of a node. -/
def outcome (d : Decisions) (n : Node) : Outcome :=
  .ofReplacement (d.updated n).1 (d.updated n).2 (d.reply [])

/-- The step with which a node is left. -/
def leaving (d : Decisions) (holder : Option (Node × Field)) (n : Node) : Step :=
  .leave ⟨[], holder, n⟩ (d.updated n).1 (d.updated n).2

/-- The steps of the visit of a node, given those of the visit of its children. -/
def around (d : Decisions) (holder : Option (Node × Field)) (n : Node) (inner : List Step) :
    List Step :=
  .enter ⟨[], holder, n⟩ :: (inner ++ [d.leaving holder n])

mutual

/-- The steps of the visit below a node. -/
def inner (d : Decisions) : Node → List Step
  | .token _ => []
  | .branch k cs => if d.descends [] then d.innerOf (.branch k cs) 0 cs else []

/-- The steps of the visit of children, of which the first has position `i`. -/
def innerOf (d : Decisions) (parent : Node) (i : Nat) : List (Field × Node) → List Step
  | [] => []
  | (f, n) :: cs =>
    ((d.under i).around (some (parent, f)) n ((d.under i).inner n)).map (Step.under i) ++
      d.innerOf parent (i + 1) cs

end

/-- The steps of the visit of a node. -/
def steps (d : Decisions) (holder : Option (Node × Field)) (n : Node) : List Step :=
  d.around holder n (d.inner n)

variable {d e : Decisions} {n parent : Node} {cs : List (Field × Node)} {i : Nat}

@[simp] theorem reaches_nil (d : Decisions) : d.reaches [] = true := rfl

theorem reaches_cons (d : Decisions) (i : Nat) (path : List Nat) :
    d.reaches (i :: path) = (d.descends [] && (d.under i).reaches path) := by
  rw [reaches, reaches, List.length_cons, List.range_succ_eq_map, List.all_cons, List.all_map]
  rfl

theorem reaches_append (d : Decisions) (path below : List Nat) :
    d.reaches (path ++ below) = (d.reaches path && (d.seenFrom path).reaches below) := by
  induction path generalizing d with
  | nil => rfl
  | cons i path ih =>
    rw [List.cons_append, reaches_cons, reaches_cons, ih, Bool.and_assoc]
    rfl

-- ---------------------------------------------------------------------------
-- Which nodes are visited
-- ---------------------------------------------------------------------------

/-- Of the occurrences in a child those are visited that are visited as seen from there. -/
theorem reaches_under (hDescends : d.descends [] = true) (i : Nat) (os : List Occurrence) :
    (os.map (·.under i)).filter (d.reaches ·.path) =
      (os.filter ((d.under i).reaches ·.path)).map (·.under i) := by
  rw [List.filter_map]
  congr 1
  refine List.filter_congr fun o _ => ?_
  simp [Occurrence.under, reaches_cons, hDescends]

theorem filter_occurrences_skipped (hDescends : d.descends [] = false) (parent : Node) (i : Nat)
    (cs : List (Field × Node)) : (Node.occurrencesIn parent i cs).filter (d.reaches ·.path) = [] := by
  refine List.filter_eq_nil_iff.mpr fun o ho => ?_
  obtain ⟨j, f, n, o', -, -, rfl⟩ := Node.exists_of_mem_occurrencesIn ho
  simp [Occurrence.under, reaches_cons, hDescends]

theorem filter_departures_skipped (hDescends : d.descends [] = false) (parent : Node) (i : Nat)
    (cs : List (Field × Node)) : (Node.departuresIn parent i cs).filter (d.reaches ·.path) = [] := by
  induction cs generalizing i with
  | nil => rfl
  | cons c cs ih =>
    rw [Node.departuresIn, List.filter_append, ih, List.append_nil, List.filter_map,
      List.map_eq_nil_iff, List.filter_eq_nil_iff]
    intro o _
    simp [Occurrence.under, reaches_cons, hDescends]

/-- What is picked of the steps in a child. -/
theorem filterMap_under {pick : Step → Option Occurrence}
    (hPick : ∀ s, pick (s.under i) = (pick s).map (·.under i)) (steps : List Step) :
    (steps.map (Step.under i)).filterMap pick = (steps.filterMap pick).map (·.under i) := by
  rw [List.filterMap_map, List.map_filterMap]
  exact List.filterMap_congr fun s _ => hPick s

theorem entered_around (d : Decisions) (holder : Option (Node × Field)) (n : Node)
    (inner : List Step) :
    (d.around holder n inner).filterMap Step.entered? =
      ⟨[], holder, n⟩ :: inner.filterMap Step.entered? := by
  simp [around, leaving, Step.entered?]

theorem left_around (d : Decisions) (holder : Option (Node × Field)) (n : Node) (inner : List Step) :
    (d.around holder n inner).filterMap Step.left? =
      inner.filterMap Step.left? ++ [⟨[], holder, n⟩] := by
  rw [around, List.filterMap_cons_none rfl, List.filterMap_append]
  rfl

/-- A visit enters the occurrences that it reaches, in their order. -/
theorem entered_steps (d : Decisions) (holder : Option (Node × Field)) (n : Node) :
    (d.steps holder n).filterMap Step.entered? =
      (n.occurrences holder).filter (d.reaches ·.path) := by
  induction n using Node.inductIn (Q := fun cs => ∀ (d : Decisions) parent i, d.descends [] = true →
      (d.innerOf parent i cs).filterMap Step.entered? =
        (Node.occurrencesIn parent i cs).filter (d.reaches ·.path)) generalizing d holder with
  | token t => rfl
  | branch k cs ih =>
    rw [steps, entered_around, Node.occurrences, List.filter_cons_of_pos (by rfl), inner]
    split
    · rename_i hDescends
      rw [ih _ _ _ hDescends]
    · rename_i hDescends
      rw [filter_occurrences_skipped (by simpa using hDescends)]
      rfl
  | nil => rfl
  | cons f n cs ih ihCs d parent i hDescends =>
    rw [innerOf, Node.occurrencesIn, List.filterMap_append, List.filter_append,
      ihCs _ _ _ hDescends, reaches_under hDescends, ← ih,
      filterMap_under (fun s => by cases s <;> rfl)]
    rfl

/-- A visit leaves the occurrences that it reaches, each after those below it. -/
theorem left_steps (d : Decisions) (holder : Option (Node × Field)) (n : Node) :
    (d.steps holder n).filterMap Step.left? =
      (n.departures holder).filter (d.reaches ·.path) := by
  induction n using Node.inductIn (Q := fun cs => ∀ (d : Decisions) parent i, d.descends [] = true →
      (d.innerOf parent i cs).filterMap Step.left? =
        (Node.departuresIn parent i cs).filter (d.reaches ·.path)) generalizing d holder with
  | token t => rfl
  | branch k cs ih =>
    rw [steps, left_around, Node.departures, List.filter_append, List.filter_singleton]
    simp only [reaches_nil]
    congr 1
    rw [inner]
    split
    · rename_i hDescends
      rw [ih _ _ _ hDescends]
    · rename_i hDescends
      rw [filter_departures_skipped (by simpa using hDescends)]
      rfl
  | nil => rfl
  | cons f n cs ih ihCs d parent i hDescends =>
    rw [innerOf, Node.departuresIn, List.filterMap_append, List.filter_append,
      ihCs _ _ _ hDescends, reaches_under hDescends, ← ih,
      filterMap_under (fun s => by cases s <;> rfl)]
    rfl

-- ---------------------------------------------------------------------------
-- What becomes of the nodes
-- ---------------------------------------------------------------------------

/-- Something in the first part of a list of children, or in the rest of it. -/
theorem any_occurrencesIn (p : List Nat → Bool) (parent : Node) (c : Field × Node) (i : Nat)
    (cs : List (Field × Node)) :
    ((Node.occurrencesIn parent i (c :: cs)).any fun o => p o.path) =
      ((p [i] || c.2.descendants.any fun o => p (i :: o.path)) ||
        (Node.occurrencesIn parent (i + 1) cs).any fun o => p o.path) := by
  rw [Node.occurrencesIn, Node.occurrences_eq, List.any_append, List.any_map, List.any_cons]
  rfl

/-- A node that replaces another, or one in which something was replaced, is not the node it was. -/
theorem inField_ofReplacement (updated : Node) (changed : Bool) (a : Replacement) (f : Field)
    (n : Node) :
    ((Outcome.ofReplacement updated changed a).inField f n).2 = (a.replaces || changed) := by
  cases a <;> cases changed <;> rfl

/-- A node is changed if something below it is replaced. -/
theorem updated_snd (d : Decisions) (n : Node) :
    (d.updated n).2 = n.descendants.any fun o => d.replaces o.path := by
  induction n using Node.inductIn (Q := fun cs => ∀ (d : Decisions) parent i, d.descends [] = true →
      (d.updatedIn i cs).2 = (Node.occurrencesIn parent i cs).any fun o => d.replaces o.path)
      generalizing d with
  | token t => rfl
  | branch k cs ih =>
    rw [updated]
    split
    · rename_i hDescends
      exact ih _ _ _ hDescends
    · rename_i hDescends
      refine (List.any_eq_false.mpr fun o ho => ?_).symm
      obtain ⟨j, f, n, o', -, -, rfl⟩ := Node.exists_of_mem_occurrencesIn ho
      simp [replaces, Occurrence.under, reaches_cons, hDescends]
  | nil => rfl
  | cons f n cs ih ihCs d parent i hDescends =>
    have hUnder (path : List Nat) : (d.under i).replaces path = d.replaces (i :: path) := by
      rw [replaces, replaces, reaches_cons, hDescends, Bool.true_and]
      rfl
    rw [any_occurrencesIn, updatedIn, ihCs _ parent _ hDescends, inField_ofReplacement, ih]
    simp only [hUnder]
    congr 2
    rw [← hUnder, replaces, reaches_nil, Bool.true_and]

/-- A node that is not changed is the node it was. -/
theorem updated_eq_self (d : Decisions) (n : Node) (h : (d.updated n).2 = false) :
    (d.updated n).1 = n := by
  induction n using Node.inductIn (Q := fun cs => ∀ (d : Decisions) i,
      (d.updatedIn i cs).2 = false → (d.updatedIn i cs).1 = cs) generalizing d with
  | token t => rfl
  | branch k cs ih =>
    rw [updated] at h ⊢
    split
    · rename_i hDescends
      rw [if_pos hDescends] at h
      exact congrArg (Node.branch k) (ih d 0 h)
    · rfl
  | nil => rfl
  | cons f n cs ih ihCs d i h =>
    rw [updatedIn, Bool.or_eq_false_iff, inField_ofReplacement, Bool.or_eq_false_iff] at h
    obtain ⟨⟨hSame, hChanged⟩, hRest⟩ := h
    rw [updatedIn, ihCs _ _ hRest]
    cases hReply : (d.under i).reply [] with
    | same =>
      simp only [hChanged]
      rfl
    | _ =>
      rw [hReply] at hSame
      cases hSame

/-- What a node is when it is left, and whether it is changed, tell the answers about the nodes below. -/
theorem updated_of_leave {d : Decisions} {holder : Option (Node × Field)} {n : Node}
    {o : Occurrence} {updated : Node} {changed : Bool}
    (h : .leave o updated changed ∈ d.steps holder n) :
    (updated, changed) = (d.seenFrom o.path).updated o.node := by
  induction n using Node.inductIn (Q := fun cs => ∀ (d : Decisions) o parent i,
      .leave o updated changed ∈ d.innerOf parent i cs →
        (updated, changed) = (d.seenFrom o.path).updated o.node) generalizing d holder o with
  | token t =>
    rw [steps, around, inner] at h
    simp only [List.nil_append, List.mem_cons, reduceCtorEq, List.not_mem_nil, or_false, false_or] at h
    cases h
    rfl
  | branch k cs ih =>
    rw [steps, around, inner, List.mem_cons, List.mem_append, List.mem_singleton] at h
    obtain h | h | h := h
    · cases h
    · split at h
      · exact ih _ _ _ _ h
      · cases h
    · cases h
      rfl
  | nil => contradiction
  | cons f n cs ih ihCs d o parent i h =>
    rw [innerOf, List.mem_append, List.mem_map] at h
    obtain ⟨s, hs, hSame⟩ | h := h
    · cases s with
      | enter _ => cases hSame
      | leave o' _ _ =>
        cases hSame
        exact ih (o := o') hs
    · exact ihCs _ _ _ _ h

/-- Only nodes that are visited are left. -/
theorem reaches_of_leave {d : Decisions} {holder : Option (Node × Field)} {n : Node}
    {o : Occurrence} {updated : Node} {changed : Bool}
    (h : .leave o updated changed ∈ d.steps holder n) : d.reaches o.path = true := by
  have hLeft : o ∈ (d.steps holder n).filterMap Step.left? := List.mem_filterMap.mpr ⟨_, h, rfl⟩
  rw [left_steps] at hLeft
  exact (List.mem_filter.mp hLeft).2

/-- A node that is visited is changed if something below it is replaced. -/
theorem alters_eq {d : Decisions} {o : Occurrence} (hReached : d.reaches o.path = true) :
    d.alters o = ((d.seenFrom o.path).updated o.node).2 := by
  have hBelow (path : List Nat) : (d.seenFrom o.path).replaces path = d.replaces (o.path ++ path) := by
    rw [replaces, replaces, reaches_append, hReached, Bool.true_and]
    rfl
  rw [updated_snd]
  simp only [hBelow]
  rfl

end Decisions

end Revision

end SourceMigration
