import SourceMigration.Proofs.Tree.WellFormed

/-!
# SourceMigration — trees with a hole

To speak of one place in a tree, not only of a node that stands somewhere in it, the tree is taken
apart into what stands in the place and what stands around it. A `Context` holds the layers around the
place, the outermost first.

## Results

* `fill_of_mem_places` — the places of a tree can be listed.
-/

namespace SourceMigration

/-- A node with a hole in the place of one of its children. -/
structure Layer where
  kind : NodeKind
  front : List (Field × Node)
  field : Field
  back : List (Field × Node)

/-- What stands around a place in a tree, the outermost layer first. -/
abbrev Context := List Layer

/-- The children of a layer whose hole is filled. -/
def Layer.children (l : Layer) (n : Node) : List (Field × Node) := l.front ++ (l.field, n) :: l.back

/-- The node of a layer whose hole is filled. -/
def Layer.fill (l : Layer) (n : Node) : Node := .branch l.kind (l.children n)

namespace Context

/-- The tree with a node in the place. -/
def fill : Context → Node → Node
  | [], n => n
  | l :: c, n => l.fill (fill c n)

@[simp] theorem fill_nil (n : Node) : fill [] n = n := rfl

@[simp] theorem fill_cons (l : Layer) (c : Context) (n : Node) :
    fill (l :: c) n = l.fill (fill c n) := rfl

/-- What fills a layer is one of its children. -/
theorem mem_children (l : Layer) (n : Node) : (l.field, n) ∈ l.children n := by
  simp [Layer.children]

/-- What children inherit from their parents, the node in a place has from the tree. -/
theorem inherit {P : Node → Prop} {c : Context} {n : Node} (h : P (fill c n))
    (hChild : ∀ k cs, P (.branch k cs) → ∀ d ∈ cs, P d.2) : P n := by
  induction c with
  | nil => exact h
  | cons l c ih => exact ih (hChild _ _ h _ (mem_children l _))

/-- What fills a context is on the walk of the tree. -/
theorem mem_walk_fill (c : Context) (n : Node) : n ∈ (fill c n).walk := by
  induction c with
  | nil => cases n <;> simp [Node.walk]
  | cons l c ih =>
    rw [fill_cons, Layer.fill]
    exact Node.mem_walk_of_child (mem_children l _) ih

mutual

/-- All nodes of a tree, each with what stands around it. -/
def places : Node → List (Context × Node)
  | .token t => [([], .token t)]
  | .branch k cs => ([], .branch k cs) :: placesIn k [] cs

/-- All nodes below some children of a node, behind the children in front of them. -/
def placesIn (k : NodeKind) (front : List (Field × Node)) :
    List (Field × Node) → List (Context × Node)
  | [] => []
  | (f, n) :: back =>
    ((places n).map fun p => (⟨k, front, f, back⟩ :: p.1, p.2)) ++
      placesIn k (front ++ [(f, n)]) back

end

/-- What is listed as standing around a node in a tree stands around it there. -/
theorem fill_of_mem_places {c : Context} {n m : Node} (h : (c, m) ∈ places n) : fill c m = n := by
  induction n using Node.induct generalizing c with
  | token t =>
    rw [places, List.mem_singleton] at h
    obtain ⟨rfl, rfl⟩ := Prod.mk.inj h
    rfl
  | branch k cs ih =>
    have hIn : ∀ front back, (∀ d ∈ back, d ∈ cs) → (c, m) ∈ placesIn k front back →
        fill c m = .branch k (front ++ back) := by
      intro front back hBack hMem
      induction back generalizing front with
      | nil => cases hMem
      | cons d back ihBack =>
        obtain ⟨f, n⟩ := d
        rw [placesIn] at hMem
        rcases List.mem_append.mp hMem with hMem | hMem
        · obtain ⟨⟨c', m'⟩, hPlace, hEq⟩ := List.mem_map.mp hMem
          obtain ⟨rfl, rfl⟩ := Prod.mk.inj hEq
          rw [fill_cons, ih _ (hBack _ List.mem_cons_self) hPlace]
          rfl
        · rw [ihBack _ (fun d hd => hBack d (List.mem_cons_of_mem _ hd)) hMem, List.append_assoc,
            List.singleton_append]
    rw [places] at h
    rcases List.mem_cons.mp h with h | h
    · obtain ⟨rfl, rfl⟩ := Prod.mk.inj h
      rfl
    · simpa using hIn [] cs (fun d hd => hd) h

end Context

end SourceMigration
