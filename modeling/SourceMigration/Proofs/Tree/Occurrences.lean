import Mathlib.Data.List.Nodup
import SourceMigration.Tree.Node

/-!
# SourceMigration — occurrences of nodes

The same node may stand at several places of a tree. An occurrence is a node with its place: the path
that leads to it from the root, and the node that holds it. The occurrences are listed twice, in the
order in which a visit from the root enters them, each before those below it, and in the order in which
it leaves them, each after those below it.

## Results

* `inductIn`             — induction over nodes and lists of children together.
* `map_node_occurrences` — the first order is that of a walk.
* `perm_departures`      — both are of the same occurrences.
* `nodup_occurrences`    — no two occurrences have the same path.
* `stands_of_mem`        — what holds an occurrence is the occurrence one step further up.
* `lists_occurrences`    — the nodes of a walk, each at its own place.
-/

namespace SourceMigration

/-- A node at its place in a tree. -/
structure Occurrence where
  /-- The positions among the children, from the root down. -/
  path : List Nat
  /-- The node that holds this one, and the field in which it does; nothing holds the root. -/
  holder : Option (Node × Field)
  node : Node

namespace Occurrence

/-- The node that holds this one. -/
def parent (o : Occurrence) : Option Node := o.holder.map Prod.fst

/-- An occurrence in the child at position `i`, as it stands in the whole tree. -/
def under (i : Nat) (o : Occurrence) : Occurrence := { o with path := i :: o.path }

end Occurrence

namespace Node

mutual

/-- The occurrences in a node, each before those below it. -/
def occurrences (holder : Option (Node × Field)) : Node → List Occurrence
  | .token t => [⟨[], holder, .token t⟩]
  | .branch k cs => ⟨[], holder, .branch k cs⟩ :: occurrencesIn (.branch k cs) 0 cs

/-- The occurrences in children of a node, of which the first has position `i`. -/
def occurrencesIn (parent : Node) (i : Nat) : List (Field × Node) → List Occurrence
  | [] => []
  | (f, n) :: cs =>
    (n.occurrences (some (parent, f))).map (·.under i) ++ occurrencesIn parent (i + 1) cs

end

mutual

/-- The occurrences in a node, each after those below it. -/
def departures (holder : Option (Node × Field)) : Node → List Occurrence
  | .token t => [⟨[], holder, .token t⟩]
  | .branch k cs => departuresIn (.branch k cs) 0 cs ++ [⟨[], holder, .branch k cs⟩]

/-- The same of children of a node, of which the first has position `i`. -/
def departuresIn (parent : Node) (i : Nat) : List (Field × Node) → List Occurrence
  | [] => []
  | (f, n) :: cs =>
    (n.departures (some (parent, f))).map (·.under i) ++ departuresIn parent (i + 1) cs

end

/-- The occurrences below a node, seen from it. -/
def descendants (n : Node) : List Occurrence := occurrencesIn n 0 n.children

variable {n parent : Node} {cs : List (Field × Node)} {i : Nat} {o : Occurrence}
  {holder : Option (Node × Field)}

theorem occurrences_eq (n : Node) (holder : Option (Node × Field)) :
    n.occurrences holder = ⟨[], holder, n⟩ :: n.descendants := by
  cases n <;> rfl

/-- Induction over nodes, and over lists of children along with them. -/
theorem inductIn {P : Node → Prop} {Q : List (Field × Node) → Prop} (token : ∀ t, P (.token t))
    (branch : ∀ k cs, Q cs → P (.branch k cs)) (nil : Q [])
    (cons : ∀ f n cs, P n → Q cs → Q ((f, n) :: cs)) (n : Node) : P n := by
  induction n using Node.induct with
  | token t => exact token t
  | branch k cs ih =>
    refine branch k cs ?_
    induction cs with
    | nil => exact nil
    | cons c cs ihList =>
      exact cons c.1 c.2 cs (ih c List.mem_cons_self)
        (ihList fun c' hc' => ih c' (List.mem_cons_of_mem _ hc'))

/-- The occurrences in the order in which they are entered are those of a walk. -/
theorem map_node_occurrences (n : Node) (holder : Option (Node × Field)) :
    (n.occurrences holder).map Occurrence.node = n.walk := by
  have hNode (i : Nat) : Occurrence.node ∘ Occurrence.under i = Occurrence.node := rfl
  induction n using inductIn (Q := fun cs => ∀ parent i,
      (occurrencesIn parent i cs).map Occurrence.node = walkOf cs) generalizing holder with
  | token t => rfl
  | branch k cs ih => rw [occurrences, List.map_cons, ih, walk]
  | nil => rfl
  | cons f n cs ih ihCs =>
    rw [occurrencesIn, List.map_append, List.map_map, hNode, ih, ihCs, walkOf]

/-- Both orders are of the same occurrences. -/
theorem perm_departures (n : Node) (holder : Option (Node × Field)) :
    (n.departures holder).Perm (n.occurrences holder) := by
  induction n using inductIn (Q := fun cs => ∀ parent i,
      (departuresIn parent i cs).Perm (occurrencesIn parent i cs)) generalizing holder with
  | token t => exact .refl _
  | branch k cs ih =>
    rw [departures, occurrences]
    exact (List.perm_append_singleton _ _).trans ((ih _ 0).cons _)
  | nil => exact .nil
  | cons f n cs ih ihCs => exact ((ih _).map _).append (ihCs _ _)

/-- The occurrences in a child begin with its position. -/
theorem exists_of_mem_occurrencesIn (h : o ∈ occurrencesIn parent i cs) :
    ∃ j f, ∃ n : Node, ∃ o' : Occurrence, cs[j]? = some (f, n) ∧ o' ∈ n.occurrences (some (parent, f)) ∧
      o = o'.under (i + j) := by
  induction cs generalizing i with
  | nil => cases h
  | cons c cs ih =>
    rw [occurrencesIn, List.mem_append, List.mem_map] at h
    obtain ⟨o', ho', rfl⟩ | h := h
    · exact ⟨0, c.1, c.2, o', rfl, ho', rfl⟩
    · obtain ⟨j, f, n, o', hc, ho', rfl⟩ := ih h
      exact ⟨j + 1, f, n, o', hc, ho', by rw [Nat.add_right_comm, Nat.add_assoc]⟩

theorem mem_occurrencesIn {j : Nat} {f : Field} (hc : cs[j]? = some (f, n))
    (ho : o ∈ n.occurrences (some (parent, f))) : o.under (i + j) ∈ occurrencesIn parent i cs := by
  induction cs generalizing i j with
  | nil => cases hc
  | cons c cs ih =>
    rw [occurrencesIn, List.mem_append, List.mem_map]
    cases j with
    | zero =>
      cases hc
      exact .inl ⟨o, ho, rfl⟩
    | succ j =>
      have h := ih (i := i + 1) hc
      rw [Nat.add_right_comm, Nat.add_assoc] at h
      exact .inr h

/-- No two occurrences have the same path. -/
theorem nodup_occurrences (n : Node) (holder : Option (Node × Field)) :
    ((n.occurrences holder).map Occurrence.path).Nodup := by
  have hPath (i : Nat) : Occurrence.path ∘ Occurrence.under i = List.cons i ∘ Occurrence.path := rfl
  induction n using inductIn (Q := fun cs => ∀ parent i,
      ((occurrencesIn parent i cs).map Occurrence.path).Nodup) generalizing holder with
  | token t => exact List.nodup_singleton _
  | branch k cs ih =>
    rw [occurrences, List.map_cons, List.nodup_cons]
    refine ⟨fun hMem => ?_, ih _ 0⟩
    obtain ⟨o, ho, hSame⟩ := List.mem_map.mp hMem
    obtain ⟨j, f, n, o', -, -, rfl⟩ := exists_of_mem_occurrencesIn ho
    cases hSame
  | nil => exact .nil
  | cons f n cs ih ihCs parent i =>
    rw [occurrencesIn, List.map_append, List.map_map, hPath, ← List.map_map]
    refine List.Nodup.append ((ih _).map List.cons_injective) (ihCs parent (i + 1)) ?_
    intro path hHead hTail
    obtain ⟨p, -, rfl⟩ := List.mem_map.mp hHead
    obtain ⟨o, ho, hSame⟩ := List.mem_map.mp hTail
    obtain ⟨j, f, n, o', -, -, rfl⟩ := exists_of_mem_occurrencesIn ho
    have := (List.cons.inj hSame).1
    omega

/-- An occurrence is where it says: it is the node itself, or a child of the occurrence one step
further up, which holds it. -/
theorem stands_of_mem (h : o ∈ n.occurrences holder) :
    o = ⟨[], holder, n⟩ ∨ ∃ up ∈ n.occurrences holder, ∃ i f,
      o.path = up.path ++ [i] ∧ o.holder = some (up.node, f) ∧
        up.node.children[i]? = some (f, o.node) := by
  induction n using Node.induct generalizing holder o with
  | token t => exact .inl (List.mem_singleton.mp h)
  | branch k cs ih =>
    rw [occurrences, List.mem_cons] at h
    refine h.imp id fun h => ?_
    obtain ⟨j, f, n, o', hc, ho', rfl⟩ := exists_of_mem_occurrencesIn h
    rw [Nat.zero_add]
    obtain rfl | ⟨up, hUp, i, g, hPath, hHolder, hChild⟩ := ih _ (List.mem_of_getElem? hc) ho'
    · exact ⟨_, List.mem_cons_self, j, f, rfl, rfl, hc⟩
    · have hMem : up.under (0 + j) ∈ occurrencesIn (.branch k cs) 0 cs := mem_occurrencesIn hc hUp
      rw [Nat.zero_add] at hMem
      refine ⟨up.under j, List.mem_cons_of_mem _ hMem, i, g, ?_, hHolder, hChild⟩
      rw [Occurrence.under, hPath]
      rfl

/-- Occurrences that are the nodes of a walk, each at its own place: all but the root are held by the
occurrence one step further up, among the children of its node. -/
structure Lists (n : Node) (holder : Option (Node × Field)) (os : List Occurrence) : Prop where
  walked : os.map Occurrence.node = n.walk
  apart : (os.map Occurrence.path).Nodup
  held : ∀ o ∈ os, o = ⟨[], holder, n⟩ ∨ ∃ up ∈ os, ∃ i f,
    o.path = up.path ++ [i] ∧ o.holder = some (up.node, f) ∧ up.node.children[i]? = some (f, o.node)

theorem lists_occurrences (n : Node) (holder : Option (Node × Field)) :
    n.Lists holder (n.occurrences holder) :=
  ⟨map_node_occurrences n holder, nodup_occurrences n holder, fun _ => stands_of_mem⟩

end Node

end SourceMigration
