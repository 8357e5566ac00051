import SourceMigration.Proofs.Tree.Consulted

/-!
# SourceMigration — what hooks are called for

A revision that succeeds calls its hooks about the nodes of the tree in the order of a walk, once about
each occurrence of a node, and skips exactly what lies below the nodes that it does not descend into. On
the way back it calls them about the same occurrences, each after those below it. A node is left as the
very one that it was unless something below it was replaced, and the tree stays the very one that it was
unless anything in it was.

## Results

* `visits_in_order` — the calls of a revision that succeeds, and what comes of them.
-/

namespace SourceMigration

namespace Revision

namespace Decisions

/-- The call before the children of an occurrence. -/
def visitOf (d : Decisions) (o : Occurrence) : Visit := ⟨o.parent, o.node, d.descends o.path⟩

/-- The call after them. -/
def leaveOf (d : Decisions) (o : Occurrence) : Leave where
  parent := o.parent
  before := o.node
  updated := ((d.seenFrom o.path).updated o.node).1
  changed := d.alters o
  reply := d.reply o.path

variable {d : Decisions} {root : Node}

/-- The calls before children are about the occurrences that are entered. -/
theorem visits_of (d : Decisions) (made : List Step) :
    (made.map d.call).filterMap Call.visit? = (made.filterMap Step.entered?).map d.visitOf := by
  have hVisit : Call.visit? ∘ d.call = fun s => (Step.entered? s).map d.visitOf := by
    funext s
    cases s <;> rfl
  rw [List.filterMap_map, hVisit, ← List.map_filterMap]

/-- The calls after children are about the occurrences that are left. -/
theorem leaves_of (d : Decisions) (root : Node) {made : List Step}
    (hMade : ∀ s ∈ made, s ∈ d.steps none root) :
    (made.map d.call).filterMap Call.leave? = (made.filterMap Step.left?).map d.leaveOf := by
  have hLeave : ∀ s ∈ made, (Call.leave? ∘ d.call) s = (Step.left? s).map d.leaveOf := by
    intro s hs
    cases s with
    | enter o => rfl
    | leave o updated changed =>
      obtain ⟨hUpdated, hChanged⟩ := Prod.mk.inj (updated_of_leave (hMade _ hs))
      rw [← alters_eq (reaches_of_leave (hMade _ hs))] at hChanged
      rw [hUpdated, hChanged]
      rfl
  rw [List.filterMap_map, List.filterMap_congr hLeave, ← List.map_filterMap]

/-- A node is left as the node it was unless something below it is replaced. -/
theorem updated_leaveOf {o : Occurrence} (hReached : d.reaches o.path = true)
    (hSame : (d.leaveOf o).changed = false) : (d.leaveOf o).updated = o.node :=
  updated_eq_self _ _ ((alters_eq hReached).symm.trans hSame)

/-- A tree is changed if anything in it is replaced. -/
theorem revised_changed (d : Decisions) (root : Node) :
    (d.revised root).changed = (root.occurrences none).any (d.replaces ·.path) := by
  rw [revised, Node.occurrences_eq, List.any_cons, updated_snd]
  rfl

/-- A tree that is not changed is the tree it was. -/
theorem revised_node (h : (d.revised root).changed = false) : (d.revised root).node = root := by
  rw [revised, Bool.or_eq_false_iff] at h
  rw [revised]
  cases hReply : d.reply [] with
  | same => exact d.updated_eq_self root h.2
  | _ =>
    rw [hReply] at h
    cases h.1

end Decisions

theorem leave_mem_iff {l : Leave} {calls : List Call} :
    .leave l ∈ calls ↔ l ∈ calls.filterMap Call.leave? := by
  rw [List.mem_filterMap]
  constructor
  · exact fun h => ⟨_, h, rfl⟩
  · rintro ⟨c, hc, hLeave⟩
    cases c with
    | visit v => cases hLeave
    | leave l' =>
      cases hLeave
      exact hc

/-- **A revision that succeeds calls its hooks in the order of the tree.** Before children they are called
about the occurrences of nodes in the order of a walk, each once and with the node that holds it, without
those below a node that is not descended into; after children about the same occurrences, each after
those below it. A node is left changed if and only if something below it was replaced, and else as the
very node it was. So the tree is changed if and only if a hook replaced something, and else it is the
very tree it was. -/
theorem visits_in_order {σ : Type} (r : Revision (StateM σ)) (root : Node) (s : σ) {result : Revised}
    (hDone : r.applied root s = .ok result) :
    root.Lists none (root.occurrences none) ∧
      ∃ d : Decisions,
        (r.calls root s).filterMap Call.visit? =
            ((root.occurrences none).filter (d.reaches ·.path)).map d.visitOf ∧
          (r.calls root s).filterMap Call.leave? =
            ((root.departures none).filter (d.reaches ·.path)).map d.leaveOf ∧
          (∀ l, .leave l ∈ r.calls root s → l.changed = false → l.updated = l.before) ∧
          (result.changed = true ↔ ∃ l, .leave l ∈ r.calls root s ∧ l.reply.replaces = true) ∧
          (result.changed = false → result.node = root) := by
  obtain ⟨d, -, -, ⟨made, rest, hSteps, hCalls, hOut⟩, -⟩ :=
    exists_ranWhole (P := fun _ _ => True) (r := r) (fun _ _ _ _ _ => trivial) (fun _ => trivial) root s
  rw [hDone] at hOut
  obtain ⟨rfl, rfl, -⟩ := hOut
  rw [List.append_nil] at hSteps
  subst hSteps
  have hVisits := d.visits_of (d.steps none root)
  have hLeaves := d.leaves_of root fun _ hs => hs
  rw [← hCalls, d.entered_steps] at hVisits
  rw [← hCalls, d.left_steps] at hLeaves
  refine ⟨root.lists_occurrences none, d, hVisits, hLeaves, ?_, ?_, d.revised_node⟩
  · intro l hl
    rw [leave_mem_iff, hLeaves, List.mem_map] at hl
    obtain ⟨o, ho, rfl⟩ := hl
    exact d.updated_leaveOf (List.mem_filter.mp ho).2
  · rw [d.revised_changed, List.any_eq_true]
    constructor
    · rintro ⟨o, ho, hReplaced⟩
      obtain ⟨hReached, hReply⟩ := Bool.and_eq_true_iff.mp hReplaced
      refine ⟨d.leaveOf o, ?_, hReply⟩
      rw [leave_mem_iff, hLeaves]
      exact List.mem_map_of_mem
        (List.mem_filter.mpr ⟨(root.perm_departures none).mem_iff.mpr ho, hReached⟩)
    · rintro ⟨l, hl, hReply⟩
      rw [leave_mem_iff, hLeaves, List.mem_map] at hl
      obtain ⟨o, ho, rfl⟩ := hl
      obtain ⟨hMem, hReached⟩ := List.mem_filter.mp ho
      exact ⟨o, (root.perm_departures none).mem_iff.mp hMem, Bool.and_eq_true_iff.mpr ⟨hReached, hReply⟩⟩

/-- A block with one statement, the first part of which is a name. -/
def namedBlock : Node :=
  .branch .block [(.opening, .token (.operator "\x7b")),
    (.statements, .branch .statement
      [(.elements, .branch (.name none) [(.tokens, .token (.identifier "a"))]),
        (.elements, .token (.identifier "b")), (.elements, .token (.operator ";"))]),
    (.closing, .token (.operator "\x7d"))]

/-- Hooks that count the nodes that are left, put two tokens in the place of the second one and drop the
third one; names are not descended into. -/
def splicing : Revision (StateM Nat) where
  visit _ n := pure (match n with | .branch (.name _) _ => false | _ => true)
  leave _ _ _ _ := do
    let count ← modifyGet fun count => (count, count + 1)
    pure <| match count with
      | 1 => .several [.token (.identifier "c"), .token (.identifier "d")]
      | 2 => .nothing
      | _ => .same

theorem visits_in_order_namedBlock :
    ∃ result, splicing.applied namedBlock 0 = .ok result ∧ result.node.text = "\x7bcd;\x7d" ∧
      ((splicing.calls namedBlock 0).filterMap Call.leave?).map (·.before.text) =
        ["\x7b", "a", "b", ";", "ab;", "\x7d", "\x7bab;\x7d"] ∧
      namedBlock.Lists none (namedBlock.occurrences none) ∧
      ∃ d : Decisions,
        (splicing.calls namedBlock 0).filterMap Call.visit? =
            ((namedBlock.occurrences none).filter (d.reaches ·.path)).map d.visitOf ∧
          (splicing.calls namedBlock 0).filterMap Call.leave? =
            ((namedBlock.departures none).filter (d.reaches ·.path)).map d.leaveOf ∧
          (∀ l, .leave l ∈ splicing.calls namedBlock 0 → l.changed = false → l.updated = l.before) ∧
          (result.changed = true ↔
            ∃ l, .leave l ∈ splicing.calls namedBlock 0 ∧ l.reply.replaces = true) ∧
          (result.changed = false → result.node = namedBlock) :=
  ⟨_, rfl, by decide, by decide, visits_in_order splicing namedBlock 0 rfl⟩

end Revision

end SourceMigration
