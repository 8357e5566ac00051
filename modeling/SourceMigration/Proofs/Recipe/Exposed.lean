import SourceMigration.Proofs.Recipe.Migrated
import SourceMigration.Proofs.Tree.Comments
import SourceMigration.Proofs.Tree.Fronted

/-!
# SourceMigration — the comments that the migration may take from a type

The migration of a node takes away the members that the table drops, writes the supertype of a moved
class anew, and the names of the legacy types. `exposed` says for every comment of a node whether it
stands in one of these. The comments before a name or a supertype are not exposed, for what is
written in its place takes them over, and neither are those before a member that moves to the front.

## Results

* `map_text_exposed` — every comment of a node is accounted for.
* `thins_migrated`   — the migration of a node takes away no comment but exposed ones.
-/

namespace SourceMigration

namespace Appender

/-- The comments of a name or a supertype that is written anew. -/
def rewritten : List Token → List Comment
  | [] => []
  | t :: ts => marked false t.comments ++ marked true (ts.flatMap Token.comments)

/-- The comments of a supertype clause of which the supertype is written anew. -/
def rewrittenClause : List Token → List Comment
  | [] => []
  | word :: ts => marked false word.comments ++ rewritten ts

mutual

/-- The comments of a node, where those are exposed that the migration may take away; `moved` tells
whether some class of the unit is moved. -/
def exposed (moved : Bool) : Node → List Comment
  | .token t => marked false t.comments
  | .branch .typeDeclaration cs =>
    exposedOfClass moved (Supertype.denoted? (.branch .typeDeclaration cs)) cs
  | .branch k cs =>
    if moved && isLegacyName (.branch k cs) then rewritten (Node.tokensOf cs)
    else exposedIn moved cs

/-- The same of each child. -/
def exposedIn (moved : Bool) : List (Field × Node) → List Comment
  | [] => []
  | (_, n) :: cs => exposed moved n ++ exposedIn moved cs

/-- The same of the children of a class that extends a type, if it is known. -/
def exposedOfClass (moved : Bool) (extended : Option TypeName) :
    List (Field × Node) → List Comment
  | [] => []
  | (.superclass, n) :: cs =>
    (if extended = some skeleton then rewrittenClause n.tokens else exposed moved n) ++
      exposedOfClass moved extended cs
  | (.body, .branch .classBody ms) :: cs =>
    (if extended.isSome then exposedMembers moved ms else exposedIn moved ms) ++
      exposedOfClass moved extended cs
  | (_, n) :: cs => exposed moved n ++ exposedOfClass moved extended cs

/-- The same of the members of a class whose supertype is known. -/
def exposedMembers (moved : Bool) : List (Field × Node) → List Comment
  | [] => []
  | (_, m) :: ms =>
    (if recipe.table.decide m = .drop then marked true m.comments else exposed moved m) ++
      exposedMembers moved ms

end

variable {moved : Bool}

-- ---------------------------------------------------------------------------
-- Part by part
-- ---------------------------------------------------------------------------

theorem exposedIn_eq (cs : List (Field × Node)) :
    exposedIn moved cs = cs.flatMap fun c => exposed moved c.2 := by
  induction cs with
  | nil => rw [exposedIn, List.flatMap_nil]
  | cons c cs ih => rw [exposedIn, ih, List.flatMap_cons]

theorem exposedMembers_eq (ms : List (Field × Node)) : exposedMembers moved ms =
    ms.flatMap fun c =>
      if recipe.table.decide c.2 = .drop then marked true c.2.comments else exposed moved c.2 := by
  induction ms with
  | nil => rw [exposedMembers, List.flatMap_nil]
  | cons c ms ih => rw [exposedMembers, ih, List.flatMap_cons]

/-- The comments of a part of a class. -/
def exposedPart (moved : Bool) (extended : Option TypeName) : Field × Node → List Comment
  | (.superclass, n) =>
    if extended = some skeleton then rewrittenClause n.tokens else exposed moved n
  | (.body, .branch .classBody ms) =>
    if extended.isSome then exposedMembers moved ms else exposedIn moved ms
  | (_, n) => exposed moved n

theorem exposedOfClass_eq (extended : Option TypeName) (cs : List (Field × Node)) :
    exposedOfClass moved extended cs = cs.flatMap (exposedPart moved extended) := by
  induction cs with
  | nil => rw [exposedOfClass, List.flatMap_nil]
  | cons c cs ih =>
    rw [List.flatMap_cons, ← ih]
    unfold exposedPart
    split
    · rw [exposedOfClass]
    · rw [exposedOfClass]
    · rw [exposedOfClass]
      · assumption
      · assumption

@[simp] theorem exposed_token (t : Token) :
    exposed moved (.token t) = marked false t.comments := by rw [exposed]

theorem exposed_branch {k : NodeKind} (hk : k ≠ .typeDeclaration) (cs : List (Field × Node)) :
    exposed moved (.branch k cs) =
      if moved && isLegacyName (.branch k cs) then rewritten (Node.tokensOf cs)
      else cs.flatMap fun c => exposed moved c.2 := by
  rw [exposed, exposedIn_eq]
  exact hk

theorem exposed_clauseOf (c : Token × Node) :
    exposed moved (ClassParts.clauseOf c) = marked false c.1.comments ++ exposed moved c.2 := by
  rw [ClassParts.clauseOf, exposed_branch (k := .extendsClause) (by simp)]
  simp [isLegacyName]

/-- The comments of a class, part after part. -/
theorem exposed_toNode (p : ClassParts) : exposed moved p.toNode =
    p.modifiers.flatMap (exposed moved) ++ (marked false p.kind.comments ++
      (marked false p.name.comments ++ (p.header.flatMap (exposed moved) ++
        ((p.extends?.toList.flatMap fun c => marked false c.1.comments ++
            if p.denoted? = some skeleton then rewritten c.2.tokens else exposed moved c.2) ++
          (p.tail.flatMap (exposed moved) ++ (marked false p.opening.comments ++
            ((p.members.flatMap fun m =>
                if p.denoted?.isSome ∧ recipe.table.decide m = .drop then marked true m.comments
                else exposed moved m) ++ marked false p.closing.comments))))))) := by
  have hDecide (t : Token) : recipe.table.decide (.token t) ≠ .drop := by
    simp [MemberTable.decide]
  have hBody : exposedPart moved p.denoted? (.body, p.body) =
      marked false p.opening.comments ++ ((p.members.flatMap fun m =>
        if p.denoted?.isSome ∧ recipe.table.decide m = .drop then marked true m.comments
        else exposed moved m) ++ marked false p.closing.comments) := by
    rw [ClassParts.body, exposedPart, exposedMembers_eq, exposedIn_eq]
    cases p.denoted? with
    | none => simp [List.flatMap_map]
    | some t => simp [hDecide, List.flatMap_map]
  have hClause (c : Token × Node) : exposedPart moved p.denoted? (.superclass, ClassParts.clauseOf c) =
      marked false c.1.comments ++
        if p.denoted? = some skeleton then rewritten c.2.tokens else exposed moved c.2 := by
    have hTokens : (ClassParts.clauseOf c).tokens = c.1 :: c.2.tokens := by
      simp [ClassParts.clauseOf, Node.tokens, Node.tokensOf]
    rw [exposedPart, hTokens, exposed_clauseOf, rewrittenClause]
    split <;> rfl
  rw [ClassParts.toNode, exposed, exposedOfClass_eq]
  show (p.children.flatMap (exposedPart moved (Supertype.denoted? p.toNode))) = _
  rw [ClassParts.denoted_toNode]
  simp only [ClassParts.children, List.flatMap_append, List.flatMap_cons, List.flatMap_nil, hBody,
    List.flatMap_map, List.append_nil, hClause]
  simp only [exposedPart, exposed_token]

@[simp] theorem map_text_rewritten (ts : List Token) :
    (rewritten ts).map Comment.text = ts.flatMap Token.comments := by
  cases ts with
  | nil => rfl
  | cons t ts => simp [rewritten]

/-- Every comment of a node is accounted for, and no other. -/
theorem map_text_exposed {n : Node} (h : n.WellFormed) :
    (exposed moved n).map Comment.text = n.comments := by
  induction h using Node.WellFormed.induct_parts with
  | token t => simp
  | branch k cs hk h ih =>
    rw [exposed_branch hk]
    split
    · rw [map_text_rewritten]
      rfl
    · rw [List.map_flatMap, Node.comments_branch]
      exact List.flatMap_congr ih
  | declaration p h ih =>
    have hEach (ns : List Node) (hns : ∀ n ∈ ns, n ∈ p.inner) :
        (ns.flatMap (exposed moved)).map Comment.text = ns.flatMap Node.comments := by
      rw [List.map_flatMap]
      exact List.flatMap_congr fun n hn => ih n (hns n hn)
    have hMembers : (p.members.flatMap fun m =>
          if p.denoted?.isSome ∧ recipe.table.decide m = .drop then marked true m.comments
          else exposed moved m).map Comment.text = p.members.flatMap Node.comments := by
      rw [List.map_flatMap]
      refine List.flatMap_congr fun m hm => ?_
      split
      · exact map_text_marked true m.comments
      · exact ih m (by simp [ClassParts.inner, hm])
    have hExtends : (p.extends?.toList.flatMap fun c => marked false c.1.comments ++
          if p.denoted? = some skeleton then rewritten c.2.tokens else exposed moved c.2).map
            Comment.text = p.extends?.toList.flatMap fun c => c.1.comments ++ c.2.comments := by
      rw [List.map_flatMap]
      refine List.flatMap_congr fun c hc => ?_
      rw [List.map_append, map_text_marked]
      congr 1
      split
      · exact map_text_rewritten _
      · have hInner : c.2 ∈ p.extends?.toList.map Prod.snd := List.mem_map_of_mem hc
        exact ih c.2 (by simp only [ClassParts.inner, List.mem_append, hInner, true_or, or_true])
    have hAll : p.toNode.comments = p.modifiers.flatMap Node.comments ++ (p.kind.comments ++
        (p.name.comments ++ (p.header.flatMap Node.comments ++
          ((p.extends?.toList.flatMap fun c => c.1.comments ++ c.2.comments) ++
            (p.tail.flatMap Node.comments ++ (p.opening.comments ++
              (p.members.flatMap Node.comments ++ p.closing.comments))))))) := by
      rw [Node.comments, ClassParts.tokens_toNode]
      simp only [List.flatMap_append, List.flatMap_cons, List.flatMap_nil, List.append_nil,
        List.flatMap_assoc]
      rfl
    rw [exposed_toNode, hAll]
    simp only [List.map_append, map_text_marked, hMembers, hExtends,
      hEach p.modifiers fun n hn => by simp [ClassParts.inner, hn],
      hEach p.header fun n hn => by simp [ClassParts.inner, hn],
      hEach p.tail fun n hn => by simp [ClassParts.inner, hn]]

-- ---------------------------------------------------------------------------
-- The comments before a node
-- ---------------------------------------------------------------------------

theorem isLegacyName_withLeadingIn (k : NodeKind) (cs : List (Field × Node)) (l : String) :
    isLegacyName (.branch k (Node.withLeadingIn l cs)) = isLegacyName (.branch k cs) := by
  cases k with
  | name t => cases t <;> rfl
  | _ => rfl

/-- The comments before a node are not exposed, and come before all others. -/
theorem exists_exposed_withLeading (moved : Bool) {n : Node} (h : n.WellFormed) (hFront : n.Fronted) :
    ∃ rest, ∀ l, exposed moved (n.withLeading l) = marked false (Layout.comments l) ++ rest := by
  induction h using Node.WellFormed.induct_parts with
  | token t => exact ⟨[], fun l => by simp [Node.withLeading]⟩
  | branch k cs hk h ih =>
    cases hFront with
    | @branch _ f n cs hFirst =>
      by_cases hName : (moved && isLegacyName (.branch k ((f, n) :: cs))) = true
      · obtain ⟨t, ts, hTokens⟩ := hFirst.exists_tokens
        refine ⟨marked true ((ts ++ Node.tokensOf cs).flatMap Token.comments), fun l => ?_⟩
        rw [Node.withLeading_branch, exposed_branch hk, isLegacyName_withLeadingIn, if_pos hName,
          Node.withLeadingIn_cons, Node.tokensOf, hTokens, List.cons_append, rewritten,
          Token.comments_withLeading]
      · obtain ⟨rest, hRest⟩ := ih (f, n) List.mem_cons_self hFirst
        refine ⟨rest ++ cs.flatMap fun c => exposed moved c.2, fun l => ?_⟩
        rw [Node.withLeading_branch, exposed_branch hk, isLegacyName_withLeadingIn, if_neg hName,
          Node.withLeadingIn_cons, List.flatMap_cons, hRest, List.append_assoc]
  | declaration p h ih =>
    simp only [ClassParts.withLeading_toNode, exposed_toNode, ClassParts.denoted_withLeading,
      ClassParts.members_withLeading]
    cases hModifiers : p.modifiers with
    | nil => exact ⟨_, fun l => by simp only [ClassParts.withLeading, hModifiers]; rfl⟩
    | cons m ms =>
      have hFirst : m.Fronted := by
        rw [ClassParts.toNode, ClassParts.children, hModifiers] at hFront
        cases hFront with
        | branch hFirst => exact hFirst
      obtain ⟨rest, hRest⟩ := ih m (by simp [ClassParts.inner, hModifiers]) hFirst
      exact ⟨_, fun l => by
        simp only [ClassParts.withLeading, hModifiers, List.flatMap_cons, hRest, List.append_assoc]
        rfl⟩

/-- Only the comments count among the trivia before a node. -/
theorem exposed_withLeading {n : Node} (h : n.WellFormed) {l : String}
    (hSame : Layout.comments l = Layout.comments n.leading) :
    exposed moved (n.withLeading l) = exposed moved n := by
  by_cases hFront : n.Fronted
  · obtain ⟨rest, hRest⟩ := exists_exposed_withLeading moved h hFront
    have hSelf := hRest n.leading
    rw [hFront.withLeading_leading] at hSelf
    rw [hRest, hSelf, hSame]
  · rw [Node.withLeading_of_not_fronted hFront]

-- ---------------------------------------------------------------------------
-- The edit of a class
-- ---------------------------------------------------------------------------

/-- A member that is renamed exposes the comments that it exposed before. -/
theorem exposed_outcome {m n : Node} (h : m.WellFormed)
    (hOutcome : recipe.table.outcome m = some n) : exposed moved n = exposed moved m := by
  cases hDecide : recipe.table.decide m with
  | keep =>
    rw [MemberTable.outcome, hDecide] at hOutcome
    rw [Option.some.inj hOutcome]
  | drop =>
    rw [MemberTable.outcome, hDecide] at hOutcome
    cases hOutcome
  | rename new =>
    obtain ⟨front, t, back, rfl, -, hRenamed⟩ := recipe.table.outcome_of_rename h hDecide
    obtain rfl := Option.some.inj (hRenamed.symm.trans hOutcome)
    rw [exposed_branch (k := .method) (by simp), exposed_branch (k := .method) (by simp)]
    simp [isLegacyName]

/-- What is left of members has lost no comment but those of the members dropped. -/
theorem thins_settled {ms : List Node} (h : ∀ m ∈ ms, m.form ∈ memberForms ∧ m.WellFormed) :
    Thins (ms.flatMap fun m =>
        if recipe.table.decide m = .drop then marked true m.comments else exposed moved m)
      ((recipe.table.settled ms).flatMap (exposed moved)) := by
  have hOutcomes : Thins (ms.flatMap fun m =>
        if recipe.table.decide m = .drop then marked true m.comments else exposed moved m)
      ((ms.filterMap recipe.table.outcome).flatMap (exposed moved)) := by
    induction ms with
    | nil => exact .nil
    | cons m ms ih =>
      have hRest := ih fun n hn => h n (List.mem_cons_of_mem _ hn)
      rw [List.flatMap_cons]
      cases hOutcome : recipe.table.outcome m with
      | none =>
        rw [if_pos (recipe.table.outcome_eq_none_iff.mp hOutcome),
          List.filterMap_cons_none hOutcome]
        exact (Thins.gone m.comments).append hRest
      | some n =>
        have hKept : recipe.table.decide m ≠ .drop := by
          intro hDrop
          rw [recipe.table.outcome_eq_none_iff.mpr hDrop] at hOutcome
          cases hOutcome
        rw [if_neg hKept, List.filterMap_cons_some hOutcome, List.flatMap_cons,
          exposed_outcome (h m List.mem_cons_self).2 hOutcome]
        exact (Thins.refl _).append hRest
  have hFine : ∀ n ∈ ms.filterMap recipe.table.outcome, n.WellFormed := by
    intro n hn
    obtain ⟨m, hm, hOutcome⟩ := List.mem_filterMap.mp hn
    exact (recipe.table.outcome_member hOutcome (h m hm)).2
  rw [MemberTable.settled]
  generalize ms.filterMap recipe.table.outcome = ns at hFine hOutcomes
  cases hBlanks : ms.head?.bind recipe.table.handedOn? with
  | none => exact hOutcomes
  | some blanks =>
    cases ns with
    | nil => exact hOutcomes
    | cons n ns =>
      -- what is handed on are blanks, so the first survivor keeps its comments
      obtain ⟨m, -, hHanded⟩ := Option.bind_eq_some_iff.mp hBlanks
      have hNoSlash : '/' ∉ blanks.toList := by
        unfold MemberTable.handedOn? at hHanded
        split at hHanded
        · exact Option.some.inj hHanded ▸ Layout.slash_notMem_leadingBlank m.leading
        · cases hHanded
      have hSame : Layout.comments (blanks ++ Text.dropBlank n.leading) = Layout.comments n.leading := by
        rw [Layout.comments_append hNoSlash, Layout.comments_dropBlank]
      rw [MemberTable.adopt, List.modifyHead_cons, List.flatMap_cons,
        exposed_withLeading (hFine n List.mem_cons_self) hSame]
      exact hOutcomes

/-- The new supertype has no comments but those before it. -/
theorem exposed_newSupertype (l : String) :
    exposed moved (newSupertype.withLeading l) = marked false (Layout.comments l) := by
  obtain ⟨rest, hRest⟩ := exists_exposed_withLeading moved wellFormed_newSupertype
    (.branch (.branch (.token _)))
  have hNone : exposed moved (newSupertype.withLeading "") = [] := by
    cases moved <;> decide
  rw [hRest] at hNone
  rw [hRest, (List.append_eq_nil_iff.mp hNone).2, List.append_nil]

/-- A type written anew keeps the comments before it. -/
theorem thins_rewritten (n : Node) :
    Thins (rewritten n.tokens) (marked false (Layout.comments n.leading)) := by
  unfold Node.leading
  cases n.tokens with
  | nil => exact .nil
  | cons t ts =>
    have hFirst := (Thins.refl (marked false t.comments)).append (.gone (ts.flatMap Token.comments))
    rw [List.append_nil] at hFirst
    exact hFirst

/-- The edit of a class takes no comment but exposed ones. -/
theorem thins_editParts {p : ClassParts} (h : p.WellFormed) :
    Thins (exposed moved p.toNode)
      ((recipe.editParts newSupertype p).children.flatMap fun c => exposed moved c.2) := by
  have hAll (q : ClassParts) : (q.children.flatMap fun c => exposed moved c.2) =
      q.modifiers.flatMap (exposed moved) ++ (marked false q.kind.comments ++
        (marked false q.name.comments ++ (q.header.flatMap (exposed moved) ++
          ((q.extends?.toList.flatMap fun c => marked false c.1.comments ++ exposed moved c.2) ++
            (q.tail.flatMap (exposed moved) ++ (marked false q.opening.comments ++
              (q.members.flatMap (exposed moved) ++ marked false q.closing.comments))))))) := by
    have hBody : exposed moved q.body = marked false q.opening.comments ++
        (q.members.flatMap (exposed moved) ++ marked false q.closing.comments) := by
      rw [ClassParts.body, exposed_branch (k := .classBody) (by simp)]
      simp [isLegacyName, List.flatMap_map]
    simp [ClassParts.children, List.flatMap_map, exposed_clauseOf, hBody]
  rw [hAll, exposed_toNode]
  by_cases hUnknown : p.denoted?.isNone = true
  · rw [Recipe.editParts, if_pos hUnknown]
    simp [Option.isNone_iff_eq_none.mp hUnknown, Thins.refl]
  · have hSome : p.denoted?.isSome = true := by
      simpa [Option.isSome_iff_ne_none] using hUnknown
    have hExtends : Thins
        (p.extends?.toList.flatMap fun c => marked false c.1.comments ++
          if p.denoted? = some skeleton then rewritten c.2.tokens else exposed moved c.2)
        ((p.extends?.map (recipe.movedSupertype newSupertype)).toList.flatMap
          fun c => marked false c.1.comments ++ exposed moved c.2) := by
      cases hClause : p.extends? with
      | none => exact .nil
      | some c =>
        have hDenoted : p.denoted? = c.2.denoted? := by simp [ClassParts.denoted?, hClause]
        have hRecipe : recipe.legacy = skeleton := rfl
        simp only [Option.map_some, Option.toList_some, List.flatMap_cons, List.flatMap_nil,
          List.append_nil, hDenoted, Recipe.movedSupertype, hRecipe]
        by_cases hLegacy : c.2.denoted? = some skeleton
        · simp only [if_pos hLegacy, exposed_newSupertype]
          exact (Thins.refl _).append (thins_rewritten c.2)
        · simp only [if_neg hLegacy]
          exact .refl _
    rw [Recipe.editParts, if_neg hUnknown]
    simp only [hSome, true_and]
    exact (Thins.refl _).append ((Thins.refl _).append ((Thins.refl _).append
      ((Thins.refl _).append (hExtends.append ((Thins.refl _).append ((Thins.refl _).append
        ((thins_settled h.members).append (.refl _))))))))

-- ---------------------------------------------------------------------------
-- The migration of a node
-- ---------------------------------------------------------------------------

/-- The edit of a name or a call takes no comment but exposed ones. -/
theorem thins_editLeaf {k : NodeKind} {cs : List (Field × Node)} (hk : k.isLeaf = true)
    (h : (Node.branch k cs).WellFormed) :
    Thins (exposed moved (.branch k cs)) (marked false (migrated moved (.branch k cs)).comments) := by
  have hType : k ≠ .typeDeclaration := by
    rintro rfl
    cases hk
  have hSame (hName : (moved && isLegacyName (.branch k cs)) = false) :
      exposed moved (.branch k cs) = marked false (Node.branch k cs).comments := by
    rw [exposed_branch hType, hName, Node.comments_branch, marked_flatMap]
    refine List.flatMap_congr fun c hc => ?_
    obtain ⟨t, ht⟩ := h.token_of_leaf hk hc
    rw [ht, exposed_token, Node.comments_token]
  rw [migrated_leaf moved hk h]
  cases moved with
  | false =>
    rw [hSame rfl]
    exact .refl _
  | true =>
    simp only [if_true]
    rcases Pass.exists_of_leaf hk h with ⟨t, ts, hEq⟩ | ⟨m, t, hEq⟩
    · by_cases hName : isLegacyName (.branch k cs) = true
      · have hTokens : exposed true (.branch k cs) = rewritten (Node.branch k cs).tokens := by
          rw [exposed_branch hType, hName]
          rfl
        rw [hTokens]
        rw [hEq] at hName ⊢
        rw [editLeaf_name]
        cases t with
        | none => cases hName
        | some t =>
          simp only [hName, if_true, newName, Node.comments_ofDotted]
          exact thins_rewritten _
      · have hNot : isLegacyName (.branch k cs) = false := by simpa using hName
        rw [hSame hNot]
        rw [hEq] at hNot ⊢
        rw [editLeaf_name]
        cases t with
        | none => exact .refl _
        | some t =>
          simp only [hNot, Bool.false_eq_true, if_false]
          exact .refl _
    · have hNot : isLegacyName (.branch k cs) = false := by
        rw [hEq]
        rfl
      rw [hSame hNot, hEq, editLeaf_call]
      simp only [Node.comments_branch, List.flatMap_cons, List.flatMap_nil, Node.comments_token,
        List.append_nil]
      split <;> exact .refl _

/-- The migration of a node takes away no comment but exposed ones. -/
theorem thins_migrated {n : Node} (h : n.WellFormed) :
    Thins (exposed moved n) (marked false (migrated moved n).comments) := by
  refine induct_migrated (P := fun n =>
    Thins (exposed moved n) (marked false (migrated moved n).comments)) ?_ ?_ ?_ h
  · intro t
    rw [migrated_token, exposed_token, Node.comments_token]
  · intro k cs hk hFine ih
    by_cases hLeaf : k.isLeaf = true
    · exact thins_editLeaf hLeaf hFine
    · have hName : (moved && isLegacyName (.branch k cs)) = false := by
        cases k <;> first | exact Bool.and_false _ | exact absurd rfl hLeaf
      rw [migrated_branch moved (by simpa using hLeaf) hk, exposed_branch hk, hName,
        Node.comments_branch, List.flatMap_map, marked_flatMap]
      exact Thins.flatMap ih
  · intro p hp ih
    rw [migrated_declaration moved hp, Node.comments_branch, List.flatMap_map, marked_flatMap]
    exact (thins_editParts hp).trans (Thins.flatMap ih)

end Appender

end SourceMigration
