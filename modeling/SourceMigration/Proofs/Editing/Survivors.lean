import SourceMigration.Proofs.Editing.Members
import SourceMigration.Proofs.Parsing.Parsed
import SourceMigration.Proofs.Tree.Fresh
import SourceMigration.Proofs.Tree.Serviceable

/-!
# SourceMigration — the members that survive the table

What the member table does to the body of a class, told by what stands in the body: which methods are
dropped, what is left of each other member, and where the blanks before the first survivor come from. A
method is dropped for its name, or for its name and because no token stands between the braces of its
body. Nothing else than methods is touched, and of a renamed method only the spelling of its name. If no
method is given a name that the table knows, a second application finds nothing to do.

## Results

* `decide_eq_drop_iff`  — which members are dropped.
* `survive_outcomes`    — the members that are left, in order.
* `settles_members`     — all that the table does to the body of a class.
-/

namespace SourceMigration

-- ---------------------------------------------------------------------------
-- Nodes that begin with a token
-- ---------------------------------------------------------------------------

namespace Node

variable {n : Node}

/-- What begins with a token is not empty. -/
theorem Fronted.tokens_ne_nil (h : n.Fronted) : n.tokens ≠ [] := by
  obtain ⟨t, ts, hTokens⟩ := h.exists_tokens
  rw [← h.withLeading_leading, hTokens]
  simp

/-- The tokens of a block are its braces and what stands between them. -/
theorem WellFormed.exists_braces {cs : List (Field × Node)} (h : WellFormed (.branch .block cs)) :
    ∃ opening closing, (Node.branch .block cs).tokens =
      opening :: ((filed .statements cs).flatMap tokens ++ [closing]) := by
  obtain ⟨opening, hOpening⟩ := h.exists_filed_token (f := .opening) (by simp [NodeKind.slots])
  obtain ⟨closing, hClosing⟩ := h.exists_filed_token (f := .closing) (by simp [NodeKind.slots])
  refine ⟨opening, closing, ?_⟩
  conv_lhs => rw [tokens, h.fieldwise.1]
  simp [NodeKind.slots, hOpening, hClosing, tokensOf_eq, tokens, List.flatMap_map]

end Node

namespace MemberTable

variable (table : MemberTable) {m n : Node} {ms ns : List Node}

-- ---------------------------------------------------------------------------
-- Members by themselves
-- ---------------------------------------------------------------------------

/-- A method that the table drops: for its name, or for its name and a body with no token between its
braces. -/
def Drops (m : Node) : Prop :=
  m.form = .method ∧ (m.declaredName ∈ table.remove ∨ m.declaredName ∈ table.removeIfEmpty ∧
    ∃ body ∈ m.field? .body, ∃ opening closing, body.tokens = [opening, closing])

/-- A method that the table has another name for. -/
def Renames (m : Node) : Prop :=
  m.form = .method ∧ ∃ new, table.rename.lookup m.declaredName = some new

/-- What is left of a member that is not dropped. -/
inductive Leaves : Node → Node → Prop where
  /-- Fields, initializers, nested types and methods that the table does not know are kept. -/
  | kept {m : Node} (h : ¬ table.Renames m) : Leaves m m
  /-- Of a method with a new name only the spelling of the name is another. -/
  | renamed {front back : List (Field × Node)} {t : Token} {new : String}
      (hNew : table.rename.lookup t.text = some new)
      (hName : filed .name (front ++ (.name, .token t) :: back) = [.token t]) :
      Leaves (.branch .method (front ++ (.name, .token t) :: back))
        (.branch .method (front ++ (.name, .token (t.withText new)) :: back))

/-- What is left of some members, in order. -/
inductive Survive : List Node → List Node → Prop where
  | nil : Survive [] []
  | dropped {m : Node} {ms ns : List Node} (h : table.Drops m) (hs : Survive ms ns) :
      Survive (m :: ms) ns
  | left {m n : Node} {ms ns : List Node} (h : ¬ table.Drops m) (hn : table.Leaves m n)
      (hs : Survive ms ns) : Survive (m :: ms) (n :: ns)

/-- What is left of some members, and how it comes to stand in their place. -/
inductive Takes : List Node → List Node → List Node → Prop where
  /-- Behind a first member that stays, everything keeps its trivia. -/
  | same {ms ns : List Node} (h : ∀ m ∈ ms.head?, ¬ table.Drops m) : Takes ms ns ns
  | none {m : Node} {ms : List Node} (h : table.Drops m) : Takes (m :: ms) [] []
  /-- Otherwise the first survivor has the blanks of the first member, and its own comments. -/
  | first {m n n' : Node} {ms ns : List Node} (h : table.Drops m) (hNode : ∃ l, n' = n.withLeading l)
      (hBlanks : Text.leadingBlank n'.leading = Text.leadingBlank m.leading)
      (hRest : Text.dropBlank n'.leading = Text.dropBlank n.leading) :
      Takes (m :: ms) (n :: ns) (n' :: ns)

/-- No name that a method may get is known to the table itself. -/
def Stable : Prop := ∀ old new, table.rename.lookup old = some new →
  new ∉ table.remove ∧ new ∉ table.removeIfEmpty ∧ table.rename.lookup new = Option.none

/-- The body of a method is empty if no token stands between its braces. -/
theorem hasEmptyBody_iff {cs : List (Field × Node)} (hFine : (Node.branch .method cs).WellFormed)
    (hFronted : ∀ n ∈ (Node.branch .method cs).walk, n.Fronted) :
    hasEmptyBody (.branch .method cs) = true ↔
      ∃ body ∈ (Node.branch .method cs).field? .body, ∃ opening closing,
        body.tokens = [opening, closing] := by
  have hForms := (hFine.fieldwise.2 ⟨.body, .optional, [.block]⟩ (by simp [NodeKind.slots])).2
  unfold hasEmptyBody
  cases hBody : (Node.branch .method cs).field? .body with
  | none => simp
  | some body =>
    have hMem : body ∈ filed .body cs := List.mem_of_head? hBody
    obtain ⟨hForm, hBlock⟩ := hForms body hMem
    obtain ⟨bs, rfl⟩ := Node.exists_children (k := .block) rfl (List.mem_singleton.mp hForm)
    obtain ⟨opening, closing, hTokens⟩ := hBlock.exists_braces
    simp only [Node.field_branch, List.isEmpty_iff, Option.mem_def, Option.some.injEq,
      exists_eq_left', hTokens]
    cases hStatements : filed .statements bs with
    | nil => simp
    | cons s ss =>
      -- a statement has a token, so there are more tokens than two
      have hStatement : s ∈ (Node.branch .method cs).walk :=
        Node.mem_walk_of_child (mem_of_mem_filed hMem) (Node.mem_walk_of_child
          (mem_of_mem_filed (hStatements ▸ List.mem_cons_self)) (by cases s <;> simp [Node.walk]))
      obtain ⟨t, ts, hSome⟩ := List.exists_cons_of_ne_nil (hFronted s hStatement).tokens_ne_nil
      simp [hSome]

/-- Which members are dropped. -/
theorem decide_eq_drop_iff (hFine : m.WellFormed) (hFronted : ∀ n ∈ m.walk, n.Fronted) :
    table.decide m = .drop ↔ table.Drops m := by
  by_cases hForm : m.form = .method
  · obtain ⟨cs, rfl⟩ := Node.exists_children (k := .method) rfl hForm
    have hEmpty := hasEmptyBody_iff hFine hFronted
    simp only [decide, Drops, hForm, true_and, ← hEmpty]
    by_cases hRemove : (Node.branch .method cs).declaredName ∈ table.remove
    · simp [hRemove]
    · by_cases hDrop : (Node.branch .method cs).declaredName ∈ table.removeIfEmpty ∧
          hasEmptyBody (.branch .method cs) = true
      · simp [hRemove, hDrop]
      · simp only [List.contains_eq_mem, hRemove, decide_false, Bool.false_eq_true, if_false,
          Bool.and_eq_true, decide_eq_true_eq, hDrop, false_or, iff_false]
        cases table.rename.lookup (Node.branch .method cs).declaredName <;> simp
  · refine iff_of_false (fun hDrop => ?_) fun hDrops => hForm hDrops.1
    obtain ⟨cs, rfl⟩ := table.exists_method_of_decide (by rw [hDrop]; simp)
    exact hForm rfl

/-- What becomes of the members that are not dropped. -/
theorem decide_of_not_drops (hFine : m.WellFormed) (hFronted : ∀ n ∈ m.walk, n.Fronted)
    (h : ¬ table.Drops m) : ¬ table.Renames m ∧ table.decide m = .keep ∨
      ∃ new, m.form = .method ∧ table.rename.lookup m.declaredName = some new ∧
        table.decide m = .rename new := by
  have hDrop := mt (table.decide_eq_drop_iff hFine hFronted).mp h
  by_cases hForm : m.form = .method
  · obtain ⟨cs, rfl⟩ := Node.exists_children (k := .method) rfl hForm
    unfold decide at hDrop ⊢
    simp only at hDrop ⊢
    split at hDrop
    · exact absurd rfl hDrop
    · rename_i hRemove
      rw [if_neg hRemove]
      split at hDrop
      · exact absurd rfl hDrop
      · rename_i hEmpty
        rw [if_neg hEmpty]
        cases hNew : table.rename.lookup (Node.branch .method cs).declaredName with
        | none => exact Or.inl ⟨by simp [Renames, hNew], rfl⟩
        | some new => exact Or.inr ⟨new, rfl, rfl, rfl⟩
  · refine Or.inl ⟨fun hRenames => hForm hRenames.1, ?_⟩
    by_contra hKeep
    obtain ⟨cs, rfl⟩ := table.exists_method_of_decide hKeep
    exact hForm rfl

/-- What is left of a member that is not dropped. -/
theorem leaves_outcome (hFine : m.WellFormed) (hFronted : ∀ n ∈ m.walk, n.Fronted)
    (h : ¬ table.Drops m) : ∃ n, table.outcome m = some n ∧ table.Leaves m n ∧ n.Fronted := by
  have hSelf : m ∈ m.walk := by cases m <;> simp [Node.walk]
  rcases table.decide_of_not_drops hFine hFronted h with ⟨hNot, hKeep⟩ | ⟨new, hForm, hNew, hRename⟩
  · exact ⟨m, by rw [outcome, hKeep], .kept hNot, hFronted m hSelf⟩
  · obtain ⟨front, t, back, rfl, hName, hOutcome⟩ := table.outcome_of_rename hFine hRename
    rw [declaredName_respelled hName] at hNew
    refine ⟨_, hOutcome, .renamed hNew hName, ?_⟩
    have hFront := hFronted _ hSelf
    cases front with
    | nil => exact .branch (.token _)
    | cons c front =>
      cases hFront with
      | branch hFirst => exact .branch hFirst

-- ---------------------------------------------------------------------------
-- All members
-- ---------------------------------------------------------------------------

/-- The members that are left, in order. -/
theorem survive_outcomes (h : ∀ m ∈ ms, m.WellFormed ∧ ∀ n ∈ m.walk, n.Fronted) :
    table.Survive ms (ms.filterMap table.outcome) := by
  induction ms with
  | nil => exact .nil
  | cons m ms ih =>
    obtain ⟨⟨hFine, hFronted⟩, hRest⟩ := List.forall_mem_cons.mp h
    by_cases hDrops : table.Drops m
    · have hNone := table.outcome_eq_none_iff.mpr ((table.decide_eq_drop_iff hFine hFronted).mpr hDrops)
      rw [List.filterMap_cons_none hNone]
      exact .dropped hDrops (ih hRest)
    · obtain ⟨n, hn, hLeaves, -⟩ := table.leaves_outcome hFine hFronted hDrops
      rw [List.filterMap_cons_some hn]
      exact .left hDrops hLeaves (ih hRest)

/-- How they come to stand in the place of the members. -/
theorem takes_settled (h : ∀ m ∈ ms, m.WellFormed ∧ ∀ n ∈ m.walk, n.Fronted) :
    table.Takes ms (ms.filterMap table.outcome) (table.settled ms) := by
  cases ms with
  | nil => exact .same (by simp)
  | cons m ms =>
    obtain ⟨hFine, hFronted⟩ := h m List.mem_cons_self
    have hDecides := table.decide_eq_drop_iff hFine hFronted
    unfold settled
    rw [List.head?_cons, Option.bind_some, handedOn?]
    by_cases hDrops : table.Drops m
    · rw [if_pos (hDecides.mpr hDrops)]
      cases hNodes : (m :: ms).filterMap table.outcome with
      | nil => exact .none hDrops
      | cons n ns =>
        obtain ⟨m', hm', hn⟩ := List.mem_filterMap.mp (hNodes ▸ List.mem_cons_self : n ∈ _)
        have hNot : ¬ table.Drops m' := fun hDrops' => by
          rw [table.outcome_eq_none_iff.mpr ((table.decide_eq_drop_iff (h m' hm').1
            (h m' hm').2).mpr hDrops')] at hn
          cases hn
        obtain ⟨n', hn', -, hFront⟩ := table.leaves_outcome (h m' hm').1 (h m' hm').2 hNot
        obtain rfl := Option.some.inj (hn.symm.trans hn')
        refine .first hDrops ⟨_, rfl⟩ ?_ ?_
        · rw [hFront.leading_withLeading, Text.leadingBlank_respaced]
        · rw [hFront.leading_withLeading, Text.dropBlank_respaced]
    · rw [if_neg (mt hDecides.mp hDrops)]
      exact .same (by simpa using hDrops)

/-- Nothing changes exactly where no member is dropped and none has a new name. -/
theorem keeps_iff (h : ∀ m ∈ ms, m.WellFormed ∧ ∀ n ∈ m.walk, n.Fronted) :
    (ms.all fun m => table.decide m == .keep) = true ↔
      ∀ m ∈ ms, ¬ table.Drops m ∧ ¬ table.Renames m := by
  rw [List.all_eq_true]
  refine forall₂_congr fun m hm => ?_
  obtain ⟨hFine, hFronted⟩ := h m hm
  rw [beq_iff_eq]
  constructor
  · intro hKeep
    have hNot : ¬ table.Drops m := fun hDrops => by
      rw [(table.decide_eq_drop_iff hFine hFronted).mpr hDrops] at hKeep
      cases hKeep
    refine ⟨hNot, ?_⟩
    rcases table.decide_of_not_drops hFine hFronted hNot with ⟨hOther, -⟩ | ⟨new, -, -, hRename⟩
    · exact hOther
    · rw [hRename] at hKeep
      cases hKeep
  · rintro ⟨hNot, hOther⟩
    rcases table.decide_of_not_drops hFine hFronted hNot with ⟨-, hKeep⟩ | ⟨new, hForm, hNew, -⟩
    · exact hKeep
    · exact absurd ⟨hForm, new, hNew⟩ hOther

-- ---------------------------------------------------------------------------
-- The table once more
-- ---------------------------------------------------------------------------

/-- A decision does not depend on what stands before the member. -/
theorem decide_withLeading (m : Node) (l : String) :
    table.decide (m.withLeading l) = table.decide m := by
  have hEmpty : hasEmptyBody (m.withLeading l) = hasEmptyBody m := by
    obtain ⟨l', hField⟩ := m.exists_field_withLeading l .body
    unfold hasEmptyBody
    rw [hField]
    cases m.field? .body with
    | none => rfl
    | some body => exact body.isEmpty_field_withLeading l' .statements
  cases m with
  | token t => rfl
  | branch k cs =>
    have hName := (Node.branch k cs).declaredName_withLeading l
    rw [Node.withLeading_branch] at hEmpty hName ⊢
    cases k with
    | method => simp only [decide, hEmpty, hName]
    | _ => rfl

theorem lookup_of_decide {new : String} (h : table.decide m = .rename new) :
    table.rename.lookup m.declaredName = some new := by
  obtain ⟨cs, rfl⟩ := table.exists_method_of_decide (by rw [h]; simp)
  unfold decide at h
  simp only at h
  split at h
  · cases h
  · split at h
    · cases h
    · split at h
      · rename_i hNew
        exact hNew.trans (congrArg some (MemberDecision.rename.inj h))
      · cases h

/-- What has been settled by a stable table stays as it is. -/
theorem decide_settled (hStable : table.Stable) (h : ∀ m ∈ ms, m.WellFormed) :
    ∀ n ∈ table.settled ms, table.decide n = .keep := by
  intro n hn
  obtain ⟨m, hm, s, l, hOutcome, rfl⟩ := table.exists_outcome_of_settled hn
  rw [decide_withLeading]
  cases hDecide : table.decide m with
  | keep =>
    rw [outcome, hDecide] at hOutcome
    exact Option.some.inj hOutcome ▸ hDecide
  | drop =>
    rw [outcome, hDecide] at hOutcome
    cases hOutcome
  | rename new =>
    obtain ⟨hRemove, hEmpty, hOther⟩ := hStable _ _ (table.lookup_of_decide hDecide)
    obtain ⟨front, t, back, rfl, hName, hRenamed⟩ := table.outcome_of_rename (h m hm) hDecide
    obtain rfl := Option.some.inj (hRenamed.symm.trans hOutcome)
    have hNew : (Node.branch .method
        (front ++ (.name, .token (t.withText new)) :: back)).declaredName = new :=
      declaredName_respelled hName _
    simp [decide, hNew, hRemove, hEmpty, hOther]

-- ---------------------------------------------------------------------------
-- Bodies
-- ---------------------------------------------------------------------------

/-- All that the table does to the body of a class: it drops and renames methods and leaves everything
else in its place, tells whether it did so, and does nothing more if it gives no name that it knows. -/
theorem settles_members {body : Node} (hForm : body.form = .classBody) (hFine : body.WellFormed)
    (hFronted : ∀ n ∈ body.walk, n.Fronted) (table : MemberTable) (trace : Trace) :
    ∃ opening closing ms ns left changed trace',
      body = Node.bodyOf opening ms closing ∧ table.Survive ms ns ∧ table.Takes ms ns left ∧
      table.apply body trace = (Node.bodyOf opening left closing, changed, trace') ∧
      (changed = false ↔ ∀ m ∈ ms, ¬ table.Drops m ∧ ¬ table.Renames m) ∧
      (changed = false → left = ms) ∧
      (table.Stable → ∀ u, table.apply (Node.bodyOf opening left closing) u =
        (Node.bodyOf opening left closing, false, u)) := by
  obtain ⟨cs, rfl⟩ := Node.exists_children (k := .classBody) rfl hForm
  obtain ⟨opening, closing, hBody⟩ := hFine.exists_bodyOf
  have hMembers : ∀ m ∈ filed .members cs, m.WellFormed ∧ ∀ n ∈ m.walk, n.Fronted := fun m hm =>
    ⟨hFine.child (mem_of_mem_filed hm), fun n hn =>
      hFronted n (Node.mem_walk_of_child (mem_of_mem_filed hm) hn)⟩
  generalize filed .members cs = ms at hBody hMembers
  rw [hBody]
  have hKeeps := table.keeps_iff hMembers
  have hResult := table.apply_bodyOf opening closing ms trace
  have hChanged : (table.apply (Node.bodyOf opening ms closing) trace).2.1 =
      !ms.all fun m => table.decide m == .keep := by
    rw [apply, Node.members_bodyOf]
    simp only
    split
    · rename_i hAll
      rw [hAll]
      rfl
    · rename_i hSome
      simp [hSome]
  obtain ⟨result, changed, trace', hApply⟩ : ∃ result changed trace',
      table.apply (Node.bodyOf opening ms closing) trace = (result, changed, trace') := ⟨_, _, _, rfl⟩
  rw [hApply] at hResult hChanged
  obtain rfl : result = Node.bodyOf opening (table.settled ms) closing := hResult
  obtain rfl : changed = !ms.all fun m => table.decide m == .keep := hChanged
  refine ⟨opening, closing, ms, _, _, _, trace', rfl, table.survive_outcomes hMembers,
    table.takes_settled hMembers, hApply, ?_, fun hNone => ?_, fun hStable u => ?_⟩
  · rw [Bool.not_eq_false', hKeeps]
  · rw [Bool.not_eq_false', List.all_eq_true] at hNone
    exact table.settled_of_keep fun m hm => by simpa using hNone m hm
  · have hAll : (table.settled ms).all (fun m => table.decide m == .keep) = true := by
      rw [List.all_eq_true]
      intro n hn
      rw [table.decide_settled hStable (fun m hm => (hMembers m hm).1) n hn]
      rfl
    rw [apply, Node.members_bodyOf]
    simp only [hAll, if_true]

open Draft in
/-- A class that has a method to drop in front, a field with a comment, a nested class, and methods to keep,
to drop and to rename behind. -/
def mixedBody : Sample := .ofDraft (node "program" [
  classOf "A" none (braced "class_body" [
    lineComment "// gone" "\n  ",
    methodOf (leaf "boolean_type" true "boolean" "\n  ") "requiresLayout" [] (braced "block" [
      returning (word "x" " ")]),
    blockComment "/* kept */" "\n\n    ",
    fieldOf wholeType "a",
    methodOf (voidType "\n  ") "close" [] (braced "block" []),
    classOf "B" none (braced "class_body" [methodOf voidType "close" [] (braced "block" [])]) "\n  ",
    methodOf (voidType "\n  ") "close" [parameterOf (wholeType "") "b"] (braced "block" [
      asStatement (callOf "f" [] " ")]),
    methodOf (voidType "\n  ") "stop" [] (braced "block" [])] " " "\n")]) "\n"

/-- The body of the class after that. -/
def settledBody : String :=
  " \x7b\n  /* kept */ int a;\n  class B \x7b void close() \x7b \x7d \x7d\n" ++
    "  void stop(int b) \x7b f(); \x7d\n  void stop() \x7b \x7d\n\x7d"

theorem stable_default : Stable {} := by
  intro old new h
  obtain rfl : "stop" = new := by
    by_cases hClose : old = "close"
    · subst hClose
      simpa using h
    · simp [List.lookup_cons, beq_eq_false_iff_ne.mpr hClose] at h
  decide

set_option maxRecDepth 100000 in
theorem settles_members_mixedBody : ∃ tree type body,
    mixedBody.unit? = some tree ∧ type ∈ tree.field .types ∧
    type.field? .body = some body ∧ body.form = .classBody ∧ body.WellFormed ∧
    (∀ n ∈ body.walk, n.Fronted) ∧ Stable {} ∧
    ∃ opening closing ms ns left trace',
      body = Node.bodyOf opening ms closing ∧ Survive {} ms ns ∧ Takes {} ms ns left ∧
      apply {} body {} = (Node.bodyOf opening left closing, true, trace') ∧
      (Node.bodyOf opening left closing).text = settledBody ∧
      apply {} (Node.bodyOf opening left closing) {} =
        (Node.bodyOf opening left closing, false, {}) := by
  have hSome : (mixedBody.unit?.bind fun tree =>
      (tree.field? .types).bind fun type => (type.field? .body).map fun body =>
        (body.form, (apply {} body {}).1.text, (apply {} body {}).2.1)) =
      some (.classBody, settledBody, true) := by
    decide +kernel
  obtain ⟨tree, hTree, hSome⟩ := Option.bind_eq_some_iff.mp hSome
  obtain ⟨type, hType, hBody⟩ := Option.bind_eq_some_iff.mp hSome
  obtain ⟨body, hField, hEq⟩ := Option.map_eq_some_iff.mp hBody
  obtain ⟨hForm, hEq⟩ := Prod.mk.inj hEq
  obtain ⟨hText, hTrue⟩ := Prod.mk.inj hEq
  have hMem : type ∈ tree.field .types := List.mem_of_head? hType
  have hFresh := Parsing.fresh_of_sample (by decide +kernel) hTree
  have hTypeSturdy := hFresh.sturdy.child_of_mem (mem_of_mem_filed hMem)
  have hSturdy := hTypeSturdy.child_of_mem (mem_of_mem_filed (List.mem_of_head? hField))
  have hFronted : ∀ n ∈ body.walk, n.Fronted := fun n hn => (hSturdy.walk n hn).fronted
  obtain ⟨opening, closing, ms, ns, left, changed, trace', hBodyOf, hSurvive, hTakes, hApply, -, -,
    hAgain⟩ := settles_members hForm hSturdy.wellFormed hFronted {} {}
  rw [hApply] at hText hTrue
  obtain rfl : changed = true := hTrue
  exact ⟨tree, type, body, hTree, hMem, hField, hForm, hSturdy.wellFormed, hFronted, stable_default,
    opening, closing, ms, ns, left, trace', hBodyOf, hSurvive, hTakes, hApply, hText,
    hAgain stable_default {}⟩

end MemberTable

end SourceMigration
