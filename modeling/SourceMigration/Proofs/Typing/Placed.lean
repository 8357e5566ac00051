import SourceMigration.Proofs.Typing.Matching
import SourceMigration.Proofs.Typing.Receivers

/-!
# SourceMigration — attribution at a place

What becomes of a node depends on what surrounds it, and on nothing else that stands around it. So where
one node stands in the place of a node after attribution, the attributed tree is what stood around the
place, attributed, with that node in it: before and after the place are the same tokens as before.

## Results

* `ofNode_fill`       — what becomes of a tree with a node in a place.
* `ofUnit_fill`       — the same for the place of a node in the types of a unit.
-/

namespace SourceMigration

namespace Attribution

variable {s : Surroundings}

-- ---------------------------------------------------------------------------
-- Whole contexts
-- ---------------------------------------------------------------------------

/-- What surrounds a place when `s` surrounds the tree. -/
def within (s : Surroundings) : Context → Node → Surroundings
  | [], _ => s
  | l :: c, n => within (enter s (l.fill (Context.fill c n))) c n

/-- Whether a place is directly in a statement, when `b` says so of the tree. -/
def runsAt (b : Bool) (c : Context) : Bool :=
  (c.getLast?.map fun l => l.kind.form == .statement).getD b

theorem runsAt_cons (b : Bool) (l : Layer) (c : Context) :
    runsAt b (l :: c) = runsAt (l.kind.form == .statement) c := by
  cases c with
  | nil => rfl
  | cons k c =>
    rw [runsAt, runsAt, List.getLast?_cons_cons]
    rfl

/-- The scope is the same at every place. -/
theorem scope_within (s : Surroundings) (c : Context) (n : Node) :
    (within s c n).scope = s.scope := by
  induction c generalizing s with
  | nil => rfl
  | cons l c ih => rw [within, ih, scope_enter]

/-- Around a node that is no token, every layer is attributed child by child. -/
theorem open_of_wellFormed {c : Context} {n : Node} (hFine : (Context.fill c n).WellFormed)
    (hForm : (Context.fill c n).form ∉ Node.headerForms) (hn : n.form ≠ .token) :
    ∀ l ∈ c, l.kind.form ∉ closedForms := by
  induction c with
  | nil => simp
  | cons l c ih =>
    have hIn := Context.mem_children l (Context.fill c n)
    have hInner : (Context.fill c n).form ≠ .token := by
      cases c with
      | nil => exact hn
      | cons k c =>
        rw [Context.fill_cons, Layer.fill, Node.form]
        cases k.kind <;> simp [NodeKind.form]
    refine List.forall_mem_cons.mpr
      ⟨fun hClosed => ?_, ih (hFine.child hIn) (Node.WellFormed.form_child hFine hForm hIn)⟩
    by_cases hLeaf : l.kind.isLeaf = true
    · obtain ⟨t, hToken⟩ := hFine.token_of_leaf hLeaf hIn
      exact hInner (by rw [show Context.fill c n = .token t from hToken]; rfl)
    · rw [Context.fill_cons, Layer.fill, Node.form] at hForm
      cases hKind : l.kind <;>
        simp_all [closedForms, Node.headerForms, NodeKind.form, NodeKind.isLeaf]

/-- Where one node comes of what fills a layer, the layer is attributed around it. -/
theorem ofNode_layer {l : Layer} {n m : Node} {b : Bool} (hFine : (l.fill n).WellFormed)
    (hOpen : l.kind.form ∉ closedForms) (hCall : ∀ cs, m ≠ .branch (.call none) cs)
    (h : (ofNode (enter s (l.fill n)) (l.kind.form == .statement) n).value = [m]) :
    ∃ l', Layer.Attributed l l' ∧ (ofNode s b (l.fill n)).value = [l'.fill m] := by
  obtain ⟨l', hLayer, hValue, -⟩ := ofNode_layer_twin (r := default) hFine hOpen hCall (.refl s)
    (.refl _) (.same m) h h
  exact ⟨l', hLayer, hValue⟩

/-- Where one node comes of the node in a place, what stands around is attributed around it. -/
theorem ofNode_fill {c : Context} {n m : Node} {b : Bool} (hFine : (Context.fill c n).WellFormed)
    (hOpen : ∀ l ∈ c, l.kind.form ∉ closedForms) (hCall : ∀ cs, m ≠ .branch (.call none) cs)
    (h : (ofNode (within s c n) (runsAt b c) n).value = [m]) :
    ∃ d, List.Forall₂ Layer.Attributed c d ∧
      (ofNode s b (Context.fill c n)).value = [Context.fill d m] := by
  induction c generalizing s b with
  | nil => exact ⟨[], .nil, h⟩
  | cons l c ih =>
    rw [within, runsAt_cons] at h
    obtain ⟨d, hAll, hValue⟩ := ih (hFine.child (Context.mem_children l _))
      (fun k hk => hOpen k (List.mem_cons_of_mem _ hk)) h
    have hNoCall : ∀ cs, Context.fill d m ≠ .branch (.call none) cs := by
      cases hAll with
      | nil => exact hCall
      | @cons k k' c d hLayer _ =>
        intro cs hEq
        obtain ⟨hKind, -⟩ := Node.branch.inj hEq
        refine hOpen k (by simp) ?_
        rw [← hLayer.kind, hKind]
        simp [closedForms, NodeKind.form]
    obtain ⟨l', hLayer, hEq⟩ := ofNode_layer (b := b) hFine (hOpen l List.mem_cons_self) hNoCall hValue
    exact ⟨l' :: d, .cons hLayer hAll, hEq⟩

/-- Where one node comes of a node in the types of a unit, the unit is attributed around it. -/
theorem ofUnit_fill (classpath : Classpath) {l : Layer} {c : Context} {unit n m : Node}
    (hFill : unit = Context.fill (l :: c) n) (hFine : unit.WellFormed) (hUnit : unit.form = .unit)
    (hTypes : l.field = .types) (hn : n.form ≠ .token) (hCall : ∀ cs, m ≠ .branch (.call none) cs)
    (h : (ofNode (within { scope := Scope.ofUnit unit classpath } (l :: c) n)
      (runsAt false (l :: c)) n).value = [m]) :
    ∃ d, List.Forall₂ Layer.Attributed (l :: c) d ∧
      (ofUnit classpath unit).value = Context.fill d m := by
  subst hFill
  have hKind : l.kind = .unit := by
    rw [Context.fill_cons, Layer.fill, Node.form] at hUnit
    cases hKind : l.kind <;> simp_all [NodeKind.form]
  have hIn := Context.mem_children l (Context.fill c n)
  have hForm : (Context.fill c n).form ∈ memberForms := by
    obtain ⟨s, hs, hField, hForm⟩ := hFine.fills.mem (List.mem_map_of_mem hIn)
    rw [hKind] at hs
    rw [tag, hTypes] at hField
    simp only [NodeKind.slots, List.mem_cons, List.not_mem_nil, or_false] at hs
    rcases hs with rfl | rfl | rfl | rfl <;> first | exact hForm | cases hField
  have hOpen : ∀ k ∈ l :: c, k.kind.form ∉ closedForms := by
    refine List.forall_mem_cons.mpr ⟨?_, open_of_wellFormed (hFine.child hIn)
      (not_header_of_member hForm) hn⟩
    rw [hKind]
    simp [closedForms, NodeKind.form]
  obtain ⟨d, hAll, hValue⟩ := ofNode_fill hFine hOpen hCall h
  refine ⟨d, hAll, ?_⟩
  unfold ofUnit
  simp only [hValue, List.headD_cons]

end Attribution

end SourceMigration
