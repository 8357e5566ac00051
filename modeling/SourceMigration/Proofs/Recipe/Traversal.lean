import SourceMigration.Editing.Supertype
import SourceMigration.Proofs.Tree.WellFormed

/-!
# SourceMigration — visits that edit type declarations

A visit comes to the children of a node before the node, and edits the type declarations on its way.
Where each edit succeeds and gives what a function of trees says, so does the visit of a whole tree, and
what the edits leave of the workshop adds up to what the visit leaves. A plan tells of a visit what its
edits do; that the visit does it follows for every plan at once.

## Results

* `eq_of_unedited`      — a tree in which nothing is edited is not built anew.
* `Plan.visits`         — a visit gives what its plan says of the tree.
* `Plan.yields_apply`   — so does a visit that begins at the root.
-/

namespace SourceMigration

-- ---------------------------------------------------------------------------
-- Edits that succeed
-- ---------------------------------------------------------------------------

/-- An edit that succeeds with a result and leaves a workshop behind. -/
def Gives {α : Type} (x : EditM α) (w : Workshop) (a : α) (w' : Workshop) : Prop :=
  x.run.run w = (.ok a, w')

namespace Gives

variable {α β : Type} {x : EditM α} {f : α → EditM β} {a : α} {b : β} {w w' w'' : Workshop}

theorem pure (a : α) (w : Workshop) : Gives (Pure.pure a : EditM α) w a w := rfl

theorem get (w : Workshop) : Gives (MonadState.get : EditM Workshop) w w w := rfl

theorem set (w w' : Workshop) : Gives (MonadStateOf.set w' : EditM PUnit) w ⟨⟩ w' := rfl

theorem of_modify (g : Workshop → Workshop) (w : Workshop) :
    Gives (modify g : EditM PUnit) w ⟨⟩ (g w) := rfl

theorem bind (h : Gives x w a w') (h' : Gives (f a) w' b w'') : Gives (x >>= f) w b w'' := by
  unfold Gives at *
  rw [ExceptT.run_bind, StateT.run_bind, h]
  exact h'

/-- What an edit gives may be used by a function. -/
theorem map (g : α → β) (h : Gives x w a w') : Gives (g <$> x) w (g a) w' := by
  rw [map_eq_pure_bind]
  exact .bind h (.pure _ _)

end Gives

/-- A part of a visit that succeeds with a result and leaves a workshop behind. -/
def Yields {α : Type} (x : ExceptT RevisionFault EditM α) (w : Workshop) (a : α)
    (w' : Workshop) : Prop :=
  Gives x.run w (.ok a) w'

namespace Yields

variable {α β : Type} {x : ExceptT RevisionFault EditM α} {f : α → ExceptT RevisionFault EditM β}
  {a : α} {b : β} {w w' w'' : Workshop}

theorem pure (a : α) (w : Workshop) : Yields (Pure.pure a) w a w := rfl

theorem bind (h : Yields x w a w') (h' : Yields (f a) w' b w'') : Yields (x >>= f) w b w'' := by
  unfold Yields at *
  rw [ExceptT.run_bind]
  exact .bind h h'

theorem lift {x : EditM α} (h : Gives x w a w') : Yields (liftM x) w a w' := .map _ h

end Yields

-- ---------------------------------------------------------------------------
-- Trees in which nothing is edited
-- ---------------------------------------------------------------------------

/-- What is made of the nodes of a tree leaves it as it is if no node is edited, provided that a node is
edited or made of what its children become. -/
theorem eq_of_unedited {image : Node → Node} {edits : Node → Bool} {n : Node}
    (hToken : ∀ t, image (.token t) = .token t)
    (hKept : ∀ k cs, .branch k cs ∈ n.walk → edits (.branch k cs) = false →
      image (.branch k cs) = .branch k (cs.map fun c => (c.1, image c.2)))
    (hNone : n.walk.any edits = false) : image n = n := by
  induction n using Node.induct with
  | token t => exact hToken t
  | branch k cs ih =>
    rw [Node.walk, List.any_cons, Bool.or_eq_false_iff, Node.walkOf_eq, List.any_flatMap,
      List.any_eq_false] at hNone
    obtain ⟨hSelf, hBelow⟩ := hNone
    rw [hKept k cs (by simp [Node.walk]) hSelf]
    congr 1
    refine (List.map_congr_left fun c hc => ?_).trans (List.map_id cs)
    rw [ih c hc (fun k' cs' hMem => hKept k' cs' (Node.mem_walk_of_child hc hMem))
      (by simpa using hBelow c hc)]
    rfl

-- ---------------------------------------------------------------------------
-- Plans
-- ---------------------------------------------------------------------------

/-- What the edits of type declarations do in a visit. -/
structure Plan where
  /-- The edit of a type declaration, after those below it. -/
  edit : Node → EditM Replacement
  /-- A node after the visit. -/
  image : Node → Node
  /-- Whether a node is built anew. -/
  edits : Node → Bool
  /-- Whether the edit of a node moves the workshop on. -/
  moves : Node → Bool
  /-- The workshops in which the edits succeed. -/
  Ready : Workshop → Prop
  /-- What edits leave of a workshop, according to whether one of them moved it on. -/
  Leads : Bool → Workshop → Workshop → Prop
  token (t : Token) : image (.token t) = .token t
  other (n : Node) (h : n.form ≠ .typeDeclaration) : edits n = false ∧ moves n = false
  refl (w : Workshop) : Leads false w w
  trans {a b : Bool} {w w' w'' : Workshop} (h : Leads a w w') (h' : Leads b w' w'') : Leads (a || b) w w''
  ready {a : Bool} {w w' : Workshop} (h : Leads a w w') (hReady : Ready w) : Ready w'

namespace Plan

variable (p : Plan)

/-- The children of a node after the visit. -/
def below (cs : List (Field × Node)) : List (Field × Node) := cs.map fun c => (c.1, p.image c.2)

/-- A tree for which the plan holds. -/
structure Fits (n : Node) : Prop where
  /-- A node that is not edited is made of what its children become. -/
  kept : ∀ k cs, .branch k cs ∈ n.walk → p.edits (.branch k cs) = false →
    p.image (.branch k cs) = .branch k (p.below cs)
  /-- A type declaration, made of what its children became, is edited as the plan says. -/
  edited : ∀ cs, .branch .typeDeclaration cs ∈ n.walk → ∀ w, p.Ready w →
    ∃ w', Gives (p.edit (.branch .typeDeclaration (p.below cs))) w
        (if p.edits (.branch .typeDeclaration cs) then .node (p.image (.branch .typeDeclaration cs))
          else .same) w' ∧
      p.Leads (p.moves (.branch .typeDeclaration cs)) w w'

/-- The visit of a node goes as the plan says. -/
def Visits (n : Node) : Prop :=
  ∀ (parent : Option Node) {w : Workshop}, p.Ready w →
    ∃ w', Yields ((Revision.ofTypes p.edit).run parent n) w
        (if n.walk.any p.edits then .replaced (p.image n) else .kept) w' ∧
      p.Leads (n.walk.any p.moves) w w'

variable {p} {n : Node} {w : Workshop} {k : NodeKind} {cs : List (Field × Node)}

theorem Fits.child (h : p.Fits (.branch k cs)) {c : Field × Node} (hc : c ∈ cs) : p.Fits c.2 where
  kept k cs hMem := h.kept k cs (Node.mem_walk_of_child hc hMem)
  edited cs hMem := h.edited cs (Node.mem_walk_of_child hc hMem)

theorem Fits.image_of_unedited (h : p.Fits n) (hNone : n.walk.any p.edits = false) : p.image n = n :=
  eq_of_unedited p.token h.kept hNone

/-- Children are visited one after another. -/
theorem yields_runChildren (k : NodeKind) (parent : Node) (hFits : ∀ c ∈ cs, p.Fits c.2)
    (h : ∀ c ∈ cs, p.Visits c.2) (hReady : p.Ready w) :
    ∃ w', Yields ((Revision.ofTypes p.edit).runChildren k parent cs) w
        (p.below cs, (Node.walkOf cs).any p.edits) w' ∧
      p.Leads ((Node.walkOf cs).any p.moves) w w' := by
  induction cs generalizing w with
  | nil =>
    refine ⟨w, ?_, p.refl w⟩
    unfold Revision.runChildren
    exact .pure _ _
  | cons c cs ih =>
    obtain ⟨f, n⟩ := c
    obtain ⟨hFirst, hFits⟩ := List.forall_mem_cons.mp hFits
    obtain ⟨hHere, hThere⟩ := List.forall_mem_cons.mp h
    obtain ⟨w₁, hRun₁, hLeads₁⟩ := hHere (some parent) hReady
    obtain ⟨w₂, hRun₂, hLeads₂⟩ := ih hFits hThere (p.ready hLeads₁ hReady)
    refine ⟨w₂, ?_, ?_⟩
    · unfold Revision.runChildren
      rw [below, List.map_cons, Node.walkOf, List.any_append]
      refine .bind hRun₁ ?_
      by_cases hEdited : n.walk.any p.edits = true
      · simp only [hEdited, if_true]
        exact .bind (.pure _ _) (.bind hRun₂ (.pure _ _))
      · have hNone : n.walk.any p.edits = false := by simpa using hEdited
        simp only [hNone, Bool.false_eq_true, if_false, hFirst.image_of_unedited hNone]
        exact .bind (.pure _ _) (.bind hRun₂ (.pure _ _))
    · rw [Node.walkOf, List.any_append]
      exact p.trans hLeads₁ hLeads₂

/-- When a node is left, it is edited if it is a type declaration, and else kept as it has become. -/
theorem Fits.gives_leave (h : p.Fits (.branch k cs)) (parent : Option Node) (changed : Bool)
    (hReady : p.Ready w) :
    ∃ w', Gives ((Revision.ofTypes p.edit).leave parent (.branch k cs) (.branch k (p.below cs)) changed) w
        (if p.edits (.branch k cs) then .node (p.image (.branch k cs)) else .same) w' ∧
      p.Leads (p.moves (.branch k cs)) w w' := by
  by_cases hk : k = .typeDeclaration
  · subst hk
    exact h.edited cs (by simp [Node.walk]) w hReady
  · obtain ⟨hEdits, hMoves⟩ := p.other (.branch k cs) (by
      cases k <;> first | exact absurd rfl hk | simp [Node.form, NodeKind.form])
    have hSame : (Revision.ofTypes p.edit).leave parent (.branch k cs) (.branch k (p.below cs)) changed =
        pure .same := by
      cases k <;> first | rfl | exact absurd rfl hk
    rw [hEdits, hMoves, hSame]
    exact ⟨w, .pure _ _, p.refl w⟩

/-- The visit of a tree goes as the plan says. -/
theorem visits (h : p.Fits n) : p.Visits n := by
  induction n using Node.induct with
  | token t =>
    intro parent w _
    obtain ⟨hEdits, hMoves⟩ := p.other (.token t) (by simp [Node.form])
    refine ⟨w, ?_, ?_⟩
    · unfold Revision.run
      rw [Node.walk, List.any_cons, List.any_nil, hEdits]
      exact .bind (.lift (.pure _ _)) (.bind (.lift (.pure _ _)) (.pure _ _))
    · rw [Node.walk, List.any_cons, List.any_nil, hMoves]
      exact p.refl w
  | branch k cs ih =>
    intro parent w hReady
    obtain ⟨w₁, hRun₁, hLeads₁⟩ := yields_runChildren k (.branch k cs) (fun c hc => h.child hc)
      (fun c hc => ih c hc (h.child hc)) hReady
    -- the edit of the node itself comes after its children
    obtain ⟨w₂, hRun₂, hLeads₂⟩ :=
      h.gives_leave parent ((Node.walkOf cs).any p.edits) (p.ready hLeads₁ hReady)
    refine ⟨w₂, ?_, ?_⟩
    · unfold Revision.run
      refine .bind (.lift (.pure true w)) (.bind hRun₁ (.bind (.lift hRun₂) ?_))
      rw [Node.walk, List.any_cons]
      cases hEdited : p.edits (.branch k cs) with
      | true => exact .pure _ _
      | false =>
        rw [h.kept k cs (by simp [Node.walk]) hEdited, Bool.false_or]
        exact .pure _ _
    · rw [Node.walk, List.any_cons, Bool.or_comm]
      exact p.trans hLeads₁ hLeads₂

/-- The visit of a whole tree goes as the plan says. -/
theorem yields_apply (h : p.Fits n) (hReady : p.Ready w) :
    ∃ w', Yields ((Revision.ofTypes p.edit).apply n) w ⟨p.image n, n.walk.any p.edits⟩ w' ∧
      p.Leads (n.walk.any p.moves) w w' := by
  obtain ⟨w', hRun, hLeads⟩ := visits h none hReady
  refine ⟨w', ?_, hLeads⟩
  unfold Revision.apply
  refine .bind hRun ?_
  cases hEdited : n.walk.any p.edits with
  | true => exact .pure _ _
  | false =>
    rw [h.image_of_unedited hEdited]
    exact .pure _ _

end Plan

end SourceMigration
