import SourceMigration.Proofs.Recipe.Migrated

/-!
# SourceMigration — what the gate lets pass

The gate looks at every node of a unit, in whatever state the unit is, and asks no more of a name than
that it denotes the type. A class that extends the type has such a name in its supertype, so where the
gate does not apply there is no such class. The visit then does what the member table does and nothing
else: as it goes up, no name comes to denote a type that none denoted before, so that no class is found
on the way either.

## Results

* `carries_of_denoted`   — a class that extends a type carries a name of it.
* `carries_tabled`       — the member table brings no name of a type along.
* `gate_hides_no_match`  — where the gate does not apply, nothing matches and no supertype is exchanged.
-/

namespace SourceMigration

-- ---------------------------------------------------------------------------
-- Names of a type
-- ---------------------------------------------------------------------------

namespace Node

/-- Some name in a tree denotes a type. -/
def Carries (t : TypeName) (n : Node) : Prop := ∃ cs, Node.branch (.name (some t)) cs ∈ n.walk

variable {t : TypeName} {n m : Node} {cs : List (Field × Node)} {k : NodeKind}

theorem not_carries_token (u : Token) : ¬ Carries t (.token u) := by
  rintro ⟨cs, h⟩
  simp [walk] at h

theorem carries_branch :
    Carries t (.branch k cs) ↔ k = .name (some t) ∨ ∃ c ∈ cs, Carries t c.2 := by
  constructor
  · rintro ⟨ds, h⟩
    rw [walk, walkOf_eq] at h
    rcases List.mem_cons.mp h with h | h
    · exact Or.inl (Node.branch.inj h).1.symm
    · obtain ⟨c, hc, h⟩ := List.mem_flatMap.mp h
      exact Or.inr ⟨c, hc, ds, h⟩
  · rintro (rfl | ⟨c, hc, ds, h⟩)
    · exact ⟨cs, by simp [walk]⟩
    · exact ⟨ds, mem_walk_of_child hc h⟩

theorem Carries.of_walk (h : Carries t m) (hm : m ∈ n.walk) : Carries t n := by
  induction n using Node.induct with
  | token u =>
    rw [walk, List.mem_singleton] at hm
    exact hm ▸ h
  | branch k cs ih =>
    rw [walk, walkOf_eq] at hm
    rcases List.mem_cons.mp hm with rfl | hm
    · exact h
    · obtain ⟨c, hc, hm⟩ := List.mem_flatMap.mp hm
      exact carries_branch.mpr (Or.inr ⟨c, hc, ih c hc hm⟩)

theorem Carries.of_child {c : Field × Node} (h : Carries t c.2) (hc : c ∈ n.children) :
    Carries t n := by
  cases n with
  | token u => cases hc
  | branch k cs => exact carries_branch.mpr (Or.inr ⟨c, hc, h⟩)

theorem Carries.of_field {f : Field} (h : Carries t m) (hm : m ∈ n.field f) : Carries t n := by
  cases n with
  | token u => cases hm
  | branch k cs => exact of_child (c := (f, m)) h (mem_of_mem_filed hm)

theorem Carries.of_withLeading {l : String} (h : Carries t (n.withLeading l)) : Carries t n := by
  induction n using Node.induct with
  | token u => exact absurd h (not_carries_token _)
  | branch k cs ih =>
    rw [withLeading_branch] at h
    cases cs with
    | nil => exact h
    | cons c cs =>
      obtain ⟨f, n⟩ := c
      rw [withLeadingIn_cons, carries_branch] at h
      rcases h with rfl | ⟨d, hd, h⟩
      · exact carries_branch.mpr (Or.inl rfl)
      · rcases List.mem_cons.mp hd with rfl | hd
        · exact carries_branch.mpr (Or.inr ⟨_, List.mem_cons_self, ih (f, n) List.mem_cons_self h⟩)
        · exact carries_branch.mpr (Or.inr ⟨d, List.mem_cons_of_mem _ hd, h⟩)

theorem mem_replaceFirst {f : Field} {new : Node} {d : Field × Node}
    (h : d ∈ setField.replaceFirst f new cs) : d ∈ cs ∨ d.2 = new := by
  induction cs with
  | nil => cases h
  | cons c cs ih =>
    obtain ⟨g, n⟩ := c
    rw [replaceFirst_cons] at h
    split at h
    · rcases List.mem_cons.mp h with rfl | h
      · exact Or.inr rfl
      · exact Or.inl (List.mem_cons_of_mem _ h)
    · rcases List.mem_cons.mp h with rfl | h
      · exact Or.inl List.mem_cons_self
      · exact (ih h).imp_left (List.mem_cons_of_mem _)

theorem Carries.of_setField {f : Field} (h : Carries t (n.setField f m)) :
    Carries t n ∨ Carries t m := by
  cases n with
  | token u => exact absurd h (not_carries_token _)
  | branch k cs =>
    rw [setField, carries_branch] at h
    rcases h with rfl | ⟨d, hd, h⟩
    · exact Or.inl (carries_branch.mpr (Or.inl rfl))
    · rcases mem_replaceFirst hd with hd | rfl
      · exact Or.inl (carries_branch.mpr (Or.inr ⟨d, hd, h⟩))
      · exact Or.inr h

/-- What a type reference denotes, some name in it denotes. -/
theorem carries_of_denotes (h : n.denoted? = some t) : Carries t n := by
  unfold denoted? at h
  split at h
  · subst h
    exact carries_branch.mpr (Or.inl rfl)
  · rename_i cs
    split at h
    · rename_i t' ds hBase
      subst h
      exact (carries_branch.mpr (Or.inl rfl)).of_field (List.mem_of_head? hBase)
    · cases h
  · cases h

end Node

/-- A class that extends a type carries a name of it. -/
theorem Supertype.carries_of_denoted {t : TypeName} {decl : Node} (h : denoted? decl = some t) :
    decl.Carries t := by
  obtain ⟨supertype, hSupertype, hDenotes⟩ := Option.bind_eq_some_iff.mp h
  obtain ⟨clause, hClause, hField⟩ := Option.bind_eq_some_iff.mp hSupertype
  exact ((Node.carries_of_denotes hDenotes).of_field (List.mem_of_head? hField)).of_field
    (List.mem_of_head? hClause)

/-- The gate of a type applies where a name of it is carried. -/
theorem Gate.applies_of_carries {t : TypeName} {unit : Node} (h : unit.Carries t) :
    Gate.applies t unit = true := by
  obtain ⟨cs, h⟩ := h
  exact List.any_eq_true.mpr ⟨_, h, by simp [mentions]⟩

-- ---------------------------------------------------------------------------
-- The member table alone
-- ---------------------------------------------------------------------------

namespace MemberTable

variable (table : MemberTable) {t : TypeName}

/-- A class with its members settled, if its supertype is known. -/
def settleClass (decl : Node) : Node :=
  if (Supertype.denoted? decl).isNone then decl
  else
    match decl.field? .body with
    | none => decl
    | some body => decl.setField .body (table.apply body {}).1

mutual

/-- A tree after a visit that exchanges no supertype: the members of each class with a known supertype
are settled, after those of the classes below it. -/
def tabled : Node → Node
  | .token u => .token u
  | .branch .typeDeclaration cs => table.settleClass (.branch .typeDeclaration (tabledIn cs))
  | .branch k cs => .branch k (tabledIn cs)

/-- The same of each child. -/
def tabledIn : List (Field × Node) → List (Field × Node)
  | [] => []
  | (f, n) :: cs => (f, tabled n) :: tabledIn cs

end

theorem tabledIn_eq (cs : List (Field × Node)) :
    table.tabledIn cs = cs.map fun c => (c.1, table.tabled c.2) := by
  induction cs with
  | nil => rw [tabledIn, List.map_nil]
  | cons c cs ih => rw [tabledIn, ih, List.map_cons]

theorem tabled_branch {k : NodeKind} (hk : k ≠ .typeDeclaration) (cs : List (Field × Node)) :
    table.tabled (.branch k cs) = .branch k (table.tabledIn cs) := by
  rw [tabled]
  exact hk

/-- Settling members leaves the supertype of a class alone. -/
theorem superclass_tabled (cs : List (Field × Node)) :
    (table.tabled (.branch .typeDeclaration cs)).field .superclass =
      ((Node.branch .typeDeclaration cs).field .superclass).map table.tabled := by
  have hBelow : filed .superclass (table.tabledIn cs) = (filed .superclass cs).map table.tabled := by
    rw [tabledIn_eq, filed_map_snd]
  rw [tabled, settleClass]
  split
  · exact hBelow
  · split
    · exact hBelow
    · exact (filed_replaceFirst (by simp) _ _).trans hBelow

theorem carries_outcome {m n : Node} (hn : table.outcome m = some n) (h : n.Carries t) :
    m.Carries t := by
  unfold outcome at hn
  cases hDecide : table.decide m with
  | keep =>
    rw [hDecide] at hn
    exact Option.some.inj hn ▸ h
  | drop =>
    rw [hDecide] at hn
    cases hn
  | rename new =>
    rw [hDecide] at hn
    obtain rfl := Option.some.inj hn
    obtain ⟨cs, rfl⟩ := table.exists_method_of_decide (by rw [hDecide]; simp)
    cases hName : (Node.branch .method cs).tokenAt? .name with
    | none => simpa [Node.relabelled?, hName] using h
    | some u =>
      rw [Node.relabelled?, hName] at h
      exact h.of_setField.resolve_right (Node.not_carries_token _)

theorem carries_apply {body : Node} {trace : Trace} (h : (table.apply body trace).1.Carries t) :
    body.Carries t := by
  unfold apply at h
  simp only at h
  split at h
  · exact h
  · rw [table.survivors_eq, Node.carries_branch] at h
    obtain ⟨c, hc, h⟩ := h.resolve_left (by simp)
    simp only [List.mem_append, List.mem_filter, List.mem_map] at hc
    rcases hc with (⟨hc, -⟩ | ⟨n, hn, rfl⟩) | ⟨hc, -⟩
    · exact h.of_child hc
    · obtain ⟨m, hm, s, l, hOutcome, rfl⟩ := table.exists_outcome_of_settled hn
      exact (table.carries_outcome hOutcome h.of_withLeading).of_field hm
    · exact h.of_child hc

theorem carries_settleClass {decl : Node} (h : (table.settleClass decl).Carries t) :
    decl.Carries t := by
  unfold settleClass at h
  split at h
  · exact h
  · split at h
    · exact h
    · rename_i body hBody
      rcases h.of_setField with h | h
      · exact h
      · exact (table.carries_apply h).of_field (List.mem_of_head? hBody)

/-- The member table brings no name of a type along. -/
theorem carries_tabled {n : Node} (h : (table.tabled n).Carries t) : n.Carries t := by
  induction n using Node.induct with
  | token u =>
    rw [tabled] at h
    exact h
  | branch k cs ih =>
    have hBelow : (Node.branch k (table.tabledIn cs)).Carries t := by
      by_cases hk : k = .typeDeclaration
      · subst hk
        rw [tabled] at h
        exact table.carries_settleClass h
      · rwa [table.tabled_branch hk] at h
    rw [tabledIn_eq, Node.carries_branch] at hBelow
    rcases hBelow with rfl | ⟨d, hd, hBelow⟩
    · exact Node.carries_branch.mpr (Or.inl rfl)
    · obtain ⟨c, hc, rfl⟩ := List.mem_map.mp hd
      exact Node.carries_branch.mpr (Or.inr ⟨c, hc, ih c hc hBelow⟩)

end MemberTable

-- ---------------------------------------------------------------------------
-- The visit
-- ---------------------------------------------------------------------------

namespace Recipe

variable {r : Recipe} {n : Node} {w : Workshop}

/-- Editing a class that does not extend the legacy type is settling it. -/
theorem gives_editClass_of_other [TreeSitter] {decl : Node} (h : Supertype.denoted? decl ≠ some r.legacy) :
    ∃ w', Gives (r.editClass decl) w
        (if (Supertype.denoted? decl).isNone then .same else .node (r.table.settleClass decl)) w' ∧
      w.Settles w' := by
  unfold editClass MemberTable.settleClass
  split
  · exact ⟨w, .pure _ _, .refl w⟩
  · rw [Supertype.match?, if_neg h]
    obtain ⟨w', hRun, hSettles⟩ := gives_settleBody (r := r) (w := w) decl
    exact ⟨w', .bind (.pure _ _) hRun, hSettles⟩

/-- A visit that moves no class does what the table does, and settles members. -/
def tablePlan [TreeSitter] (r : Recipe) : Plan where
  edit := r.editClass
  image := r.table.tabled
  edits
    | .branch k cs => Supertype.isKnown (.branch k (r.table.tabledIn cs))
    | .token _ => false
  moves _ := false
  Ready _ := True
  Leads _ w w' := w.Settles w'
  token t := by rw [MemberTable.tabled]
  other n h := by
    cases n with
    | token t => exact ⟨rfl, rfl⟩
    | branch k cs => cases k <;> first | exact ⟨rfl, rfl⟩ | exact absurd rfl h
  refl := .refl
  trans h h' := h.trans h'
  ready _ _ := trivial

theorem below_tablePlan [TreeSitter] (cs : List (Field × Node)) :
    r.tablePlan.below cs = r.table.tabledIn cs := (r.table.tabledIn_eq cs).symm

/-- Where no name of the legacy type is carried, the visit does what the table does. -/
theorem fits_tablePlan [TreeSitter] (h : ¬ n.Carries r.legacy) : r.tablePlan.Fits n where
  kept k cs hMem hNone := by
    rw [below_tablePlan]
    by_cases hk : k = .typeDeclaration
    · subst hk
      have hUnknown : Supertype.isKnown (.branch .typeDeclaration (r.table.tabledIn cs)) = false := hNone
      simp only [tablePlan]
      rw [MemberTable.tabled, MemberTable.settleClass, if_pos]
      simpa [Supertype.isKnown] using hUnknown
    · exact r.table.tabled_branch hk cs
  edited cs hMem w _ := by
    -- the classes below may have been settled by now, but they carry no more names than before
    have hOther : Supertype.denoted? (.branch .typeDeclaration (r.table.tabledIn cs)) ≠ some r.legacy := by
      intro hLegacy
      have hCarries := Supertype.carries_of_denoted hLegacy
      rw [MemberTable.tabledIn_eq, Node.carries_branch] at hCarries
      obtain ⟨d, hd, hCarries⟩ := hCarries.resolve_left (by simp)
      obtain ⟨c, hc, rfl⟩ := List.mem_map.mp hd
      have hHere : (Node.branch .typeDeclaration cs).Carries r.legacy :=
        Node.carries_branch.mpr (Or.inr ⟨c, hc, r.table.carries_tabled hCarries⟩)
      exact h (hHere.of_walk hMem)
    obtain ⟨w', hRun, hSettles⟩ := gives_editClass_of_other (w := w) hOther
    have hGiven : (if Supertype.isKnown (.branch .typeDeclaration (r.table.tabledIn cs)) then
          .node (r.table.tabled (.branch .typeDeclaration cs))
        else Replacement.same) =
        if (Supertype.denoted? (.branch .typeDeclaration (r.table.tabledIn cs))).isNone then .same
        else .node (r.table.settleClass (.branch .typeDeclaration (r.table.tabledIn cs))) := by
      rw [MemberTable.tabled, Supertype.isKnown]
      cases Supertype.denoted? (.branch .typeDeclaration (r.table.tabledIn cs)) <;> rfl
    refine ⟨w', ?_, hSettles⟩
    rw [below_tablePlan]
    exact hGiven ▸ hRun

/-- The visit of a unit in which no name of the legacy type is carried. -/
theorem gives_visitUnit_of_not_carried [TreeSitter] {unit : Node} (h : ¬ unit.Carries r.legacy)
    (w : Workshop) :
    ∃ changed w', Gives (r.visitUnit unit) w ⟨r.table.tabled unit, changed⟩ w' ∧ w.Settles w' := by
  obtain ⟨w', hRun, hSettles⟩ := Plan.yields_apply (w := w) (fits_tablePlan h) trivial
  exact ⟨_, w', gives_visitUnit_of_apply hRun, hSettles⟩

end Recipe

namespace Gate

/-- Where the gate of a type does not apply, no class at any depth extends the type, and a visit that
went through the unit nevertheless would settle members by the table, leave every supertype where it is
and schedule no pass. -/
theorem gate_hides_no_match [TreeSitter] {t : TypeName} {unit : Node} (h : Gate.applies t unit = false) :
    (∀ decl ∈ unit.walk, Supertype.match? t decl = none) ∧
      ∀ r : Recipe, r.legacy = t → ∀ w : Workshop, ∃ changed w',
        (r.visitUnit unit).run.run w = (.ok ⟨r.table.tabled unit, changed⟩, w') ∧ w.Settles w' ∧
          ∀ cs, (r.table.tabled (.branch .typeDeclaration cs)).field .superclass =
            ((Node.branch .typeDeclaration cs).field .superclass).map r.table.tabled := by
  have hNone : ¬ unit.Carries t := fun hCarries => by
    rw [applies_of_carries hCarries] at h
    cases h
  refine ⟨fun decl hDecl => ?_, ?_⟩
  · rw [Supertype.match?, if_neg]
    exact fun hExtends => hNone ((Supertype.carries_of_denoted hExtends).of_walk hDecl)
  · rintro r rfl w
    obtain ⟨changed, w', hRun, hSettles⟩ := Recipe.gives_visitUnit_of_not_carried hNone w
    exact ⟨changed, w', hRun, hSettles, r.table.superclass_tabled⟩

open Draft in
/-- Two classes whose supertype is known, and no mention of the legacy supertype. -/
def threads : Sample := .ofDraft (node "program" [
  classOf "A" (typeWord "Thread" " ") (braced "class_body" [
    classOf "B" (typeWord "Thread" " ") (braced "class_body" [
      methodOf (leaf "boolean_type" true "boolean" " ") "requiresLayout" [] (braced "block" [
        returning (word "x" " ")])]) "\n  ",
    methodOf (voidType "\n  ") "close" [] (braced "block" [asStatement (callOf "f" [] " ")])] " " "\n")]) "\n"

/-- The text with the members of both classes settled. -/
def settledThreads : String :=
  "class A extends Thread \x7b\n  class B extends Thread \x7b \x7d\n  void stop() \x7b f(); \x7d\n\x7d\n"

open Sample in
set_option maxRecDepth 100000 in
theorem gate_hides_no_match_threads : letI := library [threads]
    ∃ unit, threads.resolved? ⟨defaultStubs⟩ = some unit ∧ Gate.applies Appender.skeleton unit = false ∧
      (∀ decl ∈ unit.walk, Supertype.match? Appender.skeleton decl = none) ∧
      ∃ result changed w',
        (Appender.recipe.visitUnit unit).run.run {} = (.ok ⟨result, changed⟩, w') ∧
          result.text = settledThreads ∧ Workshop.Settles {} w' := by
  let _ := library [threads]
  have hSome : ((threads.resolved? ⟨defaultStubs⟩).map fun unit =>
      (Gate.applies Appender.skeleton unit, (Appender.recipe.table.tabled unit).text)) =
        some (false, settledThreads) := by
    decide +kernel
  obtain ⟨unit, hUnit, hSome⟩ := Option.map_eq_some_iff.mp hSome
  obtain ⟨hGate, hText⟩ := Prod.mk.inj hSome
  obtain ⟨hNone, hVisit⟩ := gate_hides_no_match hGate
  obtain ⟨changed, w', hRun, hSettles, -⟩ := hVisit Appender.recipe rfl {}
  exact ⟨unit, hUnit, hGate, hNone, _, changed, w', hRun, hText, hSettles⟩

end Gate

end SourceMigration
