import SourceMigration.Proofs.Tree.Visited

/-!
# SourceMigration — replacing tokens

A revision that replaces nothing but tokens is a flat map over the tokens of the tree: each token that is
visited gives the tokens that take its place, and the tokens below a node that is not descended into give
themselves. It fails exactly when a token is to be replaced by what cannot stand in its place.

## Results

* `tokens_inField` — the tokens of what comes to stand in a field for a node.
* `flattens`       — the tokens after a revision that replaces nothing but tokens, and when it fails.
-/

namespace SourceMigration

/-- The tokens of what takes the place of a node. -/
def Replacement.tokens (n : Node) : Replacement → List Token
  | .same => n.tokens
  | .node m => m.tokens
  | .nothing => []
  | .several ns => ns.flatMap Node.tokens

namespace Node

/-- Whether a node is a single token. -/
def isAtom : Node → Bool
  | .token _ => true
  | .branch _ _ => false

end Node

/-- The token that stands at an occurrence, if one does. -/
def Occurrence.tokens (o : Occurrence) : List Token := if o.node.isAtom then o.node.tokens else []

namespace Node

/-- The tokens that stand in a tree are its tokens. -/
theorem flatMap_occurrences (n : Node) (holder : Option (Node × Field)) :
    (n.occurrences holder).flatMap Occurrence.tokens = n.tokens := by
  induction n using inductIn (Q := fun cs => ∀ parent i,
      (occurrencesIn parent i cs).flatMap Occurrence.tokens = tokensOf cs) generalizing holder with
  | token t => rfl
  | branch k cs ih => exact ih _ 0
  | nil => rfl
  | cons f n cs ih ihCs =>
    rw [occurrencesIn, List.flatMap_append, List.flatMap_map, tokensOf, ihCs]
    exact congrArg (· ++ tokensOf cs) (ih _)

/-- Tokens are left in the order in which they are entered. -/
theorem filter_isAtom_departures (n : Node) (holder : Option (Node × Field)) :
    (n.departures holder).filter (·.node.isAtom) = (n.occurrences holder).filter (·.node.isAtom) := by
  have hUnder (i : Nat) : (fun o : Occurrence => o.node.isAtom) ∘ Occurrence.under i =
      fun o => o.node.isAtom := rfl
  induction n using inductIn (Q := fun cs => ∀ parent i,
      (departuresIn parent i cs).filter (·.node.isAtom) =
        (occurrencesIn parent i cs).filter (·.node.isAtom)) generalizing holder with
  | token t => rfl
  | branch k cs ih =>
    rw [departures, occurrences, List.filter_append, ih,
      List.filter_cons_of_neg (by simp [isAtom])]
    exact List.append_nil _
  | nil => rfl
  | cons f n cs ih ihCs =>
    rw [departuresIn, occurrencesIn, List.filter_append, List.filter_append, List.filter_map,
      List.filter_map, hUnder, ih, ihCs]

/-- Children that are filed under the same field. -/
theorem tokensOf_filed (f : Field) (ns : List Node) :
    tokensOf (ns.map fun n => (f, n)) = ns.flatMap tokens := by
  rw [tokensOf_eq, List.flatMap_map]

end Node

namespace Revision

/-- Only tokens are replaced. -/
def Spares : Node → Replacement → Prop
  | .token _, _ => True
  | .branch _ _, a => a = .same

namespace Decisions

/-- The tokens that come to stand where an occurrence of a token does. -/
def tokensAt (d : Decisions) (o : Occurrence) : List Token :=
  if o.node.isAtom && d.reaches o.path then (d.reply o.path).tokens o.node else o.tokens

variable {d : Decisions} {n parent : Node} {cs : List (Field × Node)} {i : Nat}
  {holder : Option (Node × Field)}

theorem tokensAt_under (hDescends : d.descends [] = true) (i : Nat) (o : Occurrence) :
    d.tokensAt (o.under i) = (d.under i).tokensAt o := by
  have hReaches : d.reaches (o.under i).path = (d.under i).reaches o.path := by
    rw [Occurrence.under, reaches_cons, hDescends, Bool.true_and]
  rw [tokensAt, tokensAt, hReaches]
  rfl

/-- Nothing below a node that is not descended into is replaced. -/
theorem tokensAt_skipped (hDescends : d.descends [] = false) {o : Occurrence}
    (ho : o ∈ Node.occurrencesIn parent i cs) : d.tokensAt o = o.tokens := by
  obtain ⟨j, f, n, o', -, -, rfl⟩ := Node.exists_of_mem_occurrencesIn ho
  rw [tokensAt, Occurrence.under, reaches_cons, hDescends]
  simp

/-- A node that is not replaced itself has the tokens that it is left with. -/
theorem tokens_inField_same (d : Decisions) (n : Node) (f : Field) :
    Node.tokensOf ((Outcome.ofReplacement (d.updated n).1 (d.updated n).2 .same).inField f n).1 =
      (d.updated n).1.tokens := by
  cases hChanged : (d.updated n).2 with
  | true => exact List.append_nil _
  | false =>
    rw [updated_eq_self d n hChanged]
    exact List.append_nil _

/-- What stands in a field after its node was visited has the tokens of what stands at the occurrences. -/
theorem tokens_inField (d : Decisions) (n : Node) (holder : Option (Node × Field)) (f : Field)
    (hSpares : ∀ o ∈ n.occurrences holder, Spares o.node (d.reply o.path)) :
    Node.tokensOf ((d.outcome n).inField f n).1 = (n.occurrences holder).flatMap d.tokensAt := by
  induction n using Node.inductIn (Q := fun cs => ∀ (d : Decisions) parent i,
      d.descends [] = true →
      (∀ o ∈ Node.occurrencesIn parent i cs, Spares o.node (d.reply o.path)) →
        Node.tokensOf (d.updatedIn i cs).1 = (Node.occurrencesIn parent i cs).flatMap d.tokensAt)
      generalizing d holder f with
  | token t =>
    have hTokens : (Node.occurrences holder (.token t)).flatMap d.tokensAt =
        (d.reply []).tokens (.token t) := List.append_nil _
    rw [hTokens, outcome]
    cases d.reply [] with
    | several ns => exact Node.tokensOf_filed f ns
    | node m => exact List.append_nil _
    | _ => rfl
  | branch k cs ih =>
    have hSame : d.reply [] = .same := hSpares _ List.mem_cons_self
    have hTokens : (Node.occurrences holder (.branch k cs)).flatMap d.tokensAt =
        (Node.occurrencesIn (.branch k cs) 0 cs).flatMap d.tokensAt := rfl
    rw [outcome, hSame, tokens_inField_same, hTokens, updated]
    cases hDescends : d.descends [] with
    | true => exact ih d _ 0 hDescends fun o ho => hSpares o (List.mem_cons_of_mem _ ho)
    | false =>
      rw [List.flatMap_congr fun o ho => tokensAt_skipped hDescends ho]
      exact (Node.flatMap_occurrences (.branch k cs) holder).symm
  | nil => rfl
  | cons g n cs ih ihCs d parent i hDescends hSpares =>
    rw [Node.occurrencesIn, List.forall_mem_append, List.forall_mem_map] at hSpares
    have hFirst := ih (d.under i) _ g hSpares.1
    have hRest := ihCs d parent (i + 1) hDescends hSpares.2
    rw [updatedIn, Node.tokensOf_eq, List.flatMap_append, ← Node.tokensOf_eq, ← Node.tokensOf_eq,
      hRest, Node.occurrencesIn, List.flatMap_append, List.flatMap_map]
    simp only [tokensAt_under hDescends]
    exact congrArg (· ++ _) hFirst

/-- A tree whose root stays one node has the tokens that stand at its occurrences. -/
theorem tokens_revised (hSpares : ∀ o ∈ n.occurrences none, Spares o.node (d.reply o.path))
    (hFine : (Occurrence.mk [] none n).refuses (d.reply []) = false) :
    (d.revised n).node.tokens = (n.occurrences none).flatMap d.tokensAt := by
  rw [← d.tokens_inField n none .tokens hSpares, revised, outcome]
  cases hReply : d.reply [] with
  | same => exact (d.tokens_inField_same n .tokens).symm
  | node m => exact (List.append_nil m.tokens).symm
  | nothing | several ns =>
    rw [hReply] at hFine
    cases hFine

/-- If only tokens are replaced, only what is said about tokens can be refused. -/
theorem exists_refuses_iff {made : List Step} (hMade : ∀ s ∈ made, s ∈ d.steps none n)
    (hSpares : ∀ o ∈ n.occurrences none, Spares o.node (d.reply o.path)) :
    (∃ s ∈ made, d.refuses s = true) ↔
      ∃ o ∈ (made.filterMap Step.left?).filter (·.node.isAtom), o.refuses (d.reply o.path) = true := by
  constructor
  · rintro ⟨s, hs, hRefused⟩
    cases s with
    | enter o => cases hRefused
    | leave o updated changed =>
      have hLeft : o ∈ (d.steps none n).filterMap Step.left? :=
        List.mem_filterMap.mpr ⟨_, hMade _ hs, rfl⟩
      rw [left_steps] at hLeft
      have hReply := hSpares o ((n.perm_departures none).mem_iff.mp (List.mem_filter.mp hLeft).1)
      refine ⟨o, List.mem_filter.mpr ⟨List.mem_filterMap.mpr ⟨_, hs, rfl⟩, ?_⟩, hRefused⟩
      cases hNode : o.node with
      | token t => rfl
      | branch k cs =>
        rw [hNode] at hReply
        rw [refuses, show d.reply o.path = .same from hReply] at hRefused
        cases hRefused
  · rintro ⟨o, ho, hRefused⟩
    obtain ⟨s, hs, hLeft⟩ := List.mem_filterMap.mp (List.mem_filter.mp ho).1
    cases s with
    | enter o' => cases hLeft
    | leave o' updated changed =>
      cases hLeft
      exact ⟨_, hs, hRefused⟩

end Decisions

/-- Hooks that are called about all nodes before their children, but after them only about tokens. -/
structure TokenHooks (m : Type → Type) where
  visit : (parent : Option Node) → Node → m Bool
  leave : (parent : Option Node) → Token → m Replacement

/-- The revision with such hooks; all other nodes are left as they are. -/
def TokenHooks.revision {m : Type → Type} [Monad m] (h : TokenHooks m) : Revision m where
  visit := h.visit
  leave parent before _ _ :=
    match before with
    | .token t => h.leave parent t
    | .branch _ _ => pure .same

/-- **A revision that replaces nothing but tokens is a flat map over them.** Its hooks are called about
the tokens that are visited in the order of the tree. It fails if and only if one of them is to be replaced
by what cannot stand in its place: by several nodes where one stands alone, or, if it is the root, by
anything but one node. If it does not fail, the tokens after it are those before it, with what takes the
place of each token that is visited. -/
theorem flattens {σ : Type} (h : TokenHooks (StateM σ)) (root : Node) (s : σ) :
    root.Lists none (root.occurrences none) ∧
      ∃ (d : Decisions) (left rest : List Occurrence),
        ((root.occurrences none).filter (d.reaches ·.path)).filter (·.node.isAtom) = left ++ rest ∧
          ((h.revision.calls root s).filterMap Call.leave?).filter (·.before.isAtom) =
            left.map d.leaveOf ∧
          (h.revision.calls root s).filterMap Call.visit? <+:
            ((root.occurrences none).filter (d.reaches ·.path)).map d.visitOf ∧
          ((∃ why, h.revision.applied root s = .error why) ↔
            ∃ o ∈ left, o.refuses (d.reply o.path) = true) ∧
          ∀ result, h.revision.applied root s = .ok result → rest = [] ∧
            (h.revision.calls root s).filterMap Call.visit? =
              ((root.occurrences none).filter (d.reaches ·.path)).map d.visitOf ∧
            result.node.tokens = (root.occurrences none).flatMap d.tokensAt := by
  have hAnswers : h.revision.Answers Spares := by
    intro parent before updated changed s
    cases before <;> trivial
  obtain ⟨d, -, -, ⟨made, rest, hSteps, hCalls, hOut⟩, hSpares⟩ :=
    exists_ranWhole hAnswers (fun n => by cases n <;> trivial) root s
  have hMade : ∀ s ∈ made, s ∈ d.steps none root := fun s hs => hSteps ▸ List.mem_append_left _ hs
  have hLeft : (root.departures none).filter (d.reaches ·.path) =
      made.filterMap Step.left? ++ rest.filterMap Step.left? := by
    rw [← d.left_steps, hSteps, List.filterMap_append]
  have hEntered : (root.occurrences none).filter (d.reaches ·.path) =
      made.filterMap Step.entered? ++ rest.filterMap Step.entered? := by
    rw [← d.entered_steps, hSteps, List.filterMap_append]
  have hVisits : (h.revision.calls root s).filterMap Call.visit? =
      (made.filterMap Step.entered?).map d.visitOf := by rw [hCalls, d.visits_of]
  refine ⟨root.lists_occurrences none, d, (made.filterMap Step.left?).filter (·.node.isAtom),
    (rest.filterMap Step.left?).filter (·.node.isAtom), ?_, ?_, ?_, ?_, ?_⟩
  · rw [List.filter_comm, ← root.filter_isAtom_departures, List.filter_comm, hLeft, List.filter_append]
  · rw [hCalls, d.leaves_of root hMade, List.filter_map]
    rfl
  · rw [hVisits, hEntered, List.map_append]
    exact List.prefix_append _ _
  · rw [← Decisions.exists_refuses_iff hMade hSpares]
    cases hApplied : h.revision.applied root s with
    | error why =>
      rw [hApplied] at hOut
      exact ⟨fun _ => hOut, fun _ => ⟨why, rfl⟩⟩
    | ok result =>
      rw [hApplied] at hOut
      obtain ⟨-, -, hFine⟩ := hOut
      refine ⟨fun ⟨_, hWhy⟩ => (nomatch hWhy), fun ⟨s, hs, hRefused⟩ => ?_⟩
      rw [hFine s (hMade s hs)] at hRefused
      cases hRefused
  · intro result hDone
    rw [hDone] at hOut
    obtain ⟨rfl, rfl, hFine⟩ := hOut
    refine ⟨rfl, ?_, ?_⟩
    · rw [hVisits, hEntered, List.filterMap_nil, List.append_nil]
    · have hRoot : d.refuses (d.leaving none root) = false := hFine _ (d.leaving_mem_steps none root)
      exact Decisions.tokens_revised hSpares hRoot

/-- Each token twice: in a statement, and where the name of a method stands alone. -/
example :
    let twice : TokenHooks (StateM Unit) :=
      ⟨fun _ _ => pure true, fun _ t => pure (.several [.token t, .token t])⟩
    let a : Node := .token (.identifier "a")
    ((twice.revision.applied (.branch .statement [(.elements, a)]) ()).toOption.map (·.node.text) =
        some "aa") ∧
      (twice.revision.applied (.branch (.call none) [(.callee, a)]) ()).toOption.isNone = true := by
  decide

end Revision

end SourceMigration
