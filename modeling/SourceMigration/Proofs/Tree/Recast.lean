import SourceMigration.Proofs.Tree.Leaves

/-!
# SourceMigration — trees with other names and calls

Two trees side by side: each name and each call of the one stands against what a relation allows in
the other, and all else, down to the last token, is the same in both. So a tree is compared with what
a pass made of it without a word on how the pass went about it.

## Results

* `recast_mapLeaves`   — an edit of names and calls that keeps to a relation recasts a tree by it.
* `Recast.forall_walk` — what a recast tree consists of.
* `count_replaceAll`   — replacements are counted once for each name and call that is replaced.
-/

namespace SourceMigration.Node

-- ---------------------------------------------------------------------------
-- Trees side by side
-- ---------------------------------------------------------------------------

mutual

/-- The same tree but for its names and calls, and of these each against one that is allowed. -/
inductive Recast (R : Node → Node → Prop) : Node → Node → Prop where
  | token (t : Token) : Recast R (.token t) (.token t)
  | leaf {k : NodeKind} {cs : List (Field × Node)} {m : Node} (hk : k.isLeaf = true)
      (h : R (.branch k cs) m) : Recast R (.branch k cs) m
  | branch {k : NodeKind} {cs ds : List (Field × Node)} (hk : k.isLeaf = false)
      (h : RecastEach R cs ds) : Recast R (.branch k cs) (.branch k ds)

/-- The same of each child, in its field. -/
inductive RecastEach (R : Node → Node → Prop) :
    List (Field × Node) → List (Field × Node) → Prop where
  | nil : RecastEach R [] []
  | cons {f : Field} {n m : Node} {cs ds : List (Field × Node)} (h : Recast R n m)
      (hs : RecastEach R cs ds) : RecastEach R ((f, n) :: cs) ((f, m) :: ds)

end

variable {R : Node → Node → Prop}

theorem recastEach_map {g : Node → Node} {cs : List (Field × Node)}
    (h : ∀ c ∈ cs, Recast R c.2 (g c.2)) : RecastEach R cs (cs.map fun c => (c.1, g c.2)) := by
  induction cs with
  | nil => exact .nil
  | cons c cs ih =>
    obtain ⟨hFirst, hRest⟩ := List.forall_mem_cons.mp h
    exact .cons hFirst (ih hRest)

/-- An edit of names and calls that keeps to a relation recasts a tree by it. -/
theorem recast_mapLeaves {f : Node → Node} {n : Node} (h : n.WellFormed)
    (hLeaf : ∀ k cs, k.isLeaf = true → (Node.branch k cs).WellFormed →
      R (.branch k cs) (f (.branch k cs))) : Recast R n (n.mapLeaves f) := by
  induction h with
  | token t => exact .token t
  | @branch k cs hFills hChildren ih =>
    by_cases hk : k.isLeaf = true
    · rw [mapLeaves_leaf hk]
      exact .leaf hk (hLeaf k cs hk (.branch hFills hChildren))
    · have hk : k.isLeaf = false := by simpa using hk
      rw [mapLeaves_branch hk]
      exact .branch hk (recastEach_map ih)

theorem exists_of_recastEach {cs ds : List (Field × Node)} (h : RecastEach R cs ds)
    {d : Field × Node} (hd : d ∈ ds) : ∃ c ∈ cs, Recast R c.2 d.2 := by
  induction cs generalizing ds with
  | nil =>
    cases h
    cases hd
  | cons c cs ih =>
    cases h with
    | @cons f n m _ ds hNode hs =>
      rcases List.mem_cons.mp hd with rfl | hd
      · exact ⟨(f, n), List.mem_cons_self, hNode⟩
      · obtain ⟨c, hc, hSame⟩ := ih hs hd
        exact ⟨c, List.mem_cons_of_mem _ hc, hSame⟩

/-- On the walk of a name or a call there is nothing else but tokens. -/
theorem WellFormed.eq_or_token {k : NodeKind} {cs : List (Field × Node)}
    (h : WellFormed (.branch k cs)) (hk : k.isLeaf = true) {x : Node}
    (hx : x ∈ (Node.branch k cs).walk) : x = .branch k cs ∨ ∃ t, x = .token t := by
  rw [Node.walk, walkOf_eq] at hx
  rcases List.mem_cons.mp hx with rfl | hx
  · exact Or.inl rfl
  · obtain ⟨c, hc, hx⟩ := List.mem_flatMap.mp hx
    obtain ⟨t, ht⟩ := h.token_of_leaf hk hc
    rw [ht, Node.walk, List.mem_singleton] at hx
    exact Or.inr ⟨t, hx⟩

/-- What is true of tokens, of nodes that are neither names nor calls, and of all that a name or a call
may become, is true of everything on the walk of a recast tree. -/
theorem Recast.forall_walk {P : Node → Prop} (hToken : ∀ t, P (.token t))
    (hBranch : ∀ k cs, k.isLeaf = false → P (.branch k cs))
    (hLeaf : ∀ n m, R n m → P m ∧ ∃ k cs, k.isLeaf = true ∧ m = .branch k cs) {n m : Node}
    (h : Recast R n m) (hFine : m.WellFormed) : ∀ x ∈ m.walk, P x := by
  induction n using Node.induct generalizing m with
  | token t =>
    cases h
    simpa [walk] using hToken t
  | branch k cs ih =>
    cases h with
    | leaf hk hR =>
      obtain ⟨hHere, l, ds, hl, rfl⟩ := hLeaf _ _ hR
      intro x hx
      rcases hFine.eq_or_token hl hx with rfl | ⟨t, rfl⟩
      · exact hHere
      · exact hToken t
    | @branch k cs ds hk hEach =>
      intro x hx
      rw [walk, walkOf_eq] at hx
      rcases List.mem_cons.mp hx with rfl | hx
      · exact hBranch k ds hk
      · obtain ⟨d, hd, hx⟩ := List.mem_flatMap.mp hx
        obtain ⟨c, hc, hNode⟩ := exists_of_recastEach hEach hd
        exact ih c hc hNode (hFine.child hd) x hx

-- ---------------------------------------------------------------------------
-- Counting
-- ---------------------------------------------------------------------------

/-- A node that is not replaced counts what is replaced below it, unless it is skipped. -/
theorem count_branch {skip : NodeKind → Bool} {f : Node → Option Node} {k : NodeKind}
    {cs : List (Field × Node)} (h : f (.branch k cs) = none) :
    ((Node.branch k cs).replaceAll skip f).2 = if skip k then 0 else (replaceAllIn skip f cs).2 := by
  rw [replaceAll, h]
  simp only
  split <;> rfl

theorem count_replaceAllIn {skip : NodeKind → Bool} {f : Node → Option Node} {p : Node → Bool}
    {cs : List (Field × Node)} (h : ∀ c ∈ cs, (c.2.replaceAll skip f).2 = c.2.walk.countP p) :
    (replaceAllIn skip f cs).2 = (walkOf cs).countP p := by
  induction cs with
  | nil => rfl
  | cons c cs ih =>
    obtain ⟨hFirst, hRest⟩ := List.forall_mem_cons.mp h
    simp only [replaceAllIn, walkOf, List.countP_append, hFirst, ih hRest]

theorem count_replaceAllIn_of_kept {skip : NodeKind → Bool} {f : Node → Option Node}
    {cs : List (Field × Node)} (h : ∀ c ∈ cs, (c.2.replaceAll skip f).2 = 0) :
    (replaceAllIn skip f cs).2 = 0 := by
  have hNone : (replaceAllIn skip f cs).2 = (walkOf cs).countP fun _ => false :=
    count_replaceAllIn fun c hc => by simp [h c hc]
  simp [hNone]

/-- Where nothing is replaced, nothing is counted. -/
theorem count_of_kept {skip : NodeKind → Bool} {f : Node → Option Node} {n : Node}
    (h : ∀ m ∈ n.walk, f m = none) : (n.replaceAll skip f).2 = 0 := by
  induction n using Node.induct with
  | token t => simp [replaceAll, h (.token t) (by simp [walk])]
  | branch k cs ih =>
    rw [count_branch (h _ (by simp [walk]))]
    split
    · rfl
    · exact count_replaceAllIn_of_kept fun c hc =>
        ih c hc fun m hm => h m (mem_walk_of_child hc hm)

/-- Replacements are counted once for each name and each call that is replaced. -/
theorem count_replaceAll {skip : NodeKind → Bool} {f : Node → Option Node} (hf : OnlyLeaves f)
    {n : Node} (h : n.WellFormed)
    (hSkip : ∀ k cs, (Node.branch k cs) ∈ n.walk → skip k = false) :
    (n.replaceAll skip f).2 = n.walk.countP fun m => (f m).isSome := by
  induction h with
  | token t => simp [replaceAll, hf.token, walk]
  | @branch k cs hFills hChildren ih =>
    rw [walk, List.countP_cons]
    cases hNew : f (.branch k cs) with
    | none =>
      have hVisited : skip k = false := hSkip k cs (by simp [walk])
      have hBelow : (replaceAllIn skip f cs).2 = (walkOf cs).countP fun m => (f m).isSome :=
        count_replaceAllIn fun c hc =>
          ih c hc fun k' cs' hMem => hSkip k' cs' (mem_walk_of_child hc hMem)
      rw [count_branch hNew, hVisited, hBelow]
      simp
    | some m =>
      -- only a leaf is replaced, and below it nothing is
      have hLeaf : k.isLeaf = true := by
        by_contra hk
        rw [hf.branch k cs (by simpa using hk)] at hNew
        cases hNew
      have hNone : (walkOf cs).countP (fun m => (f m).isSome) = 0 := by
        rw [walkOf_eq]
        refine List.countP_eq_zero.mpr fun m hm => ?_
        obtain ⟨c, hc, hm⟩ := List.mem_flatMap.mp hm
        obtain ⟨t, ht⟩ := WellFormed.token_of_leaf (.branch hFills hChildren) hLeaf hc
        rw [ht, walk, List.mem_singleton] at hm
        simp [hm, hf.token]
      simp [replaceAll, hNew, hNone]

end SourceMigration.Node
