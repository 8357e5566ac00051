import Mathlib.Data.List.Forall2
import SourceMigration.Proofs.Recipe.Migrated

/-!
# SourceMigration — the migration edits nothing else

`Becomes` says, node by node, which tokens the migrated unit has for those of the resolved unit. A
token stands for itself, and what stands for a node is put together of what stands for its
children, in their order. There are three exceptions: a class whose supertype is known, of which
first the supertype may be exchanged and the members settled; and, if some class of the unit is
moved, the names of the legacy types and the calls that format.

Around the types of a unit, only the imports change, and, where no package stands before them, the
trivia before the first type.

## Results

* `becomes_migrated` — what the migration makes of a node is what `Becomes` says.
* `run_edits_only`   — a run on a resolved unit edits nothing else.
-/

namespace SourceMigration

-- ---------------------------------------------------------------------------
-- Trivia before the first of some tokens
-- ---------------------------------------------------------------------------

/-- Some trivia are those that the first of some tokens has already. -/
theorem exists_modifyHead_eq_self (ts : List Token) :
    ∃ l, ts.modifyHead (Token.withLeading l) = ts := by
  cases ts with
  | nil => exact ⟨"", rfl⟩
  | cons t ts => exact ⟨t.leading, rfl⟩

/-- What concerns the first token of a list concerns the first token of a longer one. -/
theorem exists_modifyHead_append {ts us : List Token} {l : String}
    (h : us = ts.modifyHead (Token.withLeading l)) (rest : List Token) :
    ∃ l', us ++ rest = (ts ++ rest).modifyHead (Token.withLeading l') := by
  subst h
  cases ts with
  | nil =>
    obtain ⟨l', hl'⟩ := exists_modifyHead_eq_self rest
    exact ⟨l', hl'.symm⟩
  | cons t ts => exact ⟨l, rfl⟩

namespace Node

/-- Other trivia before a node are other trivia before its first token. -/
theorem exists_tokens_withLeading (n : Node) (l : String) :
    ∃ l', (n.withLeading l).tokens = n.tokens.modifyHead (Token.withLeading l') := by
  induction n using Node.induct with
  | token t => exact ⟨l, rfl⟩
  | branch k cs ih =>
    cases cs with
    | nil => exact ⟨l, rfl⟩
    | cons c cs =>
      obtain ⟨l', hl'⟩ := ih c List.mem_cons_self
      exact exists_modifyHead_append hl' (tokensOf cs)

end Node

/-- The tokens of refronted nodes are the same but for the trivia before the first. -/
theorem Refronts.exists_tokens {ns ms : List Node} (h : Refronts ns ms) : ∃ l,
    ms.flatMap Node.tokens = (ns.flatMap Node.tokens).modifyHead (Token.withLeading l) := by
  obtain ⟨l, rfl⟩ := h
  cases ns with
  | nil => exact ⟨"", rfl⟩
  | cons n ns =>
    obtain ⟨l', hl'⟩ := n.exists_tokens_withLeading l
    exact exists_modifyHead_append hl' (ns.flatMap Node.tokens)

namespace Appender

-- ---------------------------------------------------------------------------
-- What becomes of a node
-- ---------------------------------------------------------------------------

/-- The tokens that stand in the migrated unit for those of a node of the resolved unit; `moved`
tells whether some class of the unit is moved. -/
inductive Becomes (moved : Bool) : Node → List Token → Prop where
  /-- A token keeps its kind, its spelling and its trivia. -/
  | token (t : Token) : Becomes moved (.token t) [t]
  /-- Where there is nothing to edit, the children follow one another as before. -/
  | branch {k : NodeKind} {cs : List (Field × Node)} {tss : List (List Token)}
      (hName : moved = true → isLegacyName (.branch k cs) = false)
      (hCall : moved = true → isFormatCall (.branch k cs) = false)
      (hClass : Supertype.isKnown (.branch k cs) = false)
      (hChildren : List.Forall₂ (Becomes moved) (cs.map Prod.snd) tss) :
      Becomes moved (.branch k cs) tss.flatten
  /-- A name of a legacy type becomes a name of the new one, as simple or as full as it was. -/
  | name {t : TypeName} {cs : List (Field × Node)} (hMoved : moved = true)
      (hName : isLegacyName (.branch (.name (some t)) cs) = true) :
      Becomes moved (.branch (.name (some t)) cs)
        (newName (newType t) (.branch (.name (some t)) cs)).tokens
  /-- A call that formats is spelled anew. -/
  | call {m : Option MethodType} {t : Token} (hMoved : moved = true)
      (hCall : isFormatCall (.branch (.call m) [(.callee, .token t)]) = true) :
      Becomes moved (.branch (.call m) [(.callee, .token t)]) [t.withText "doLayout"]
  /-- A class whose supertype is known has its supertype exchanged, if it is the legacy one, and
  its members dropped or renamed by the table. -/
  | declaration {p : ClassParts} {tss : List (List Token)} (hKnown : p.denoted?.isSome = true)
      (hChildren : List.Forall₂ (Becomes moved)
        ((recipe.editParts newSupertype p).children.map Prod.snd) tss) :
      Becomes moved p.toNode tss.flatten

variable {moved : Bool}

/-- Children that become something, one after another. -/
theorem becomes_children {cs : List (Field × Node)}
    (h : ∀ c ∈ cs, Becomes moved c.2 (migrated moved c.2).tokens) :
    List.Forall₂ (Becomes moved) (cs.map Prod.snd)
      (cs.map fun c => (migrated moved c.2).tokens) := by
  rw [List.forall₂_map_left_iff, List.forall₂_map_right_iff]
  exact List.forall₂_same.mpr h

theorem tokens_children (k : NodeKind) (cs : List (Field × Node)) :
    (Node.branch k (cs.map fun c => (c.1, migrated moved c.2))).tokens =
      (cs.map fun c => (migrated moved c.2).tokens).flatten := by
  rw [Node.tokens, Node.tokensOf_eq, List.flatMap_map, List.flatMap_def]

/-- Where there is nothing to edit, a node becomes what its children become. -/
theorem becomes_branch {k : NodeKind} {cs : List (Field × Node)} (hLeaf : k.isLeaf = false)
    (hk : k ≠ .typeDeclaration) (h : ∀ c ∈ cs, Becomes moved c.2 (migrated moved c.2).tokens) :
    Becomes moved (.branch k cs) (migrated moved (.branch k cs)).tokens := by
  rw [migrated_branch moved hLeaf hk, tokens_children]
  refine .branch ?_ ?_ ?_ (becomes_children h)
  · cases k <;> first | exact fun _ => rfl | cases hLeaf
  · cases k <;> first | exact fun _ => rfl | cases hLeaf
  · cases k <;> first | rfl | exact absurd rfl hk

theorem becomes_token (t : Token) :
    Becomes moved (.token t) (migrated moved (.token t)).tokens := by
  rw [migrated_token]
  exact .token t

theorem becomes_leaf {k : NodeKind} {cs : List (Field × Node)} (hk : k.isLeaf = true)
    (h : (Node.branch k cs).WellFormed) :
    Becomes moved (.branch k cs) (migrated moved (.branch k cs)).tokens := by
  have hSame (hName : moved = true → isLegacyName (.branch k cs) = false)
      (hCall : moved = true → isFormatCall (.branch k cs) = false) :
      Becomes moved (.branch k cs) (Node.branch k cs).tokens := by
    have hTokens : (Node.branch k cs).tokens = (cs.map fun c => c.2.tokens).flatten := by
      rw [Node.tokens, Node.tokensOf_eq, List.flatMap_def]
    rw [hTokens]
    refine .branch hName hCall ?_ ?_
    · cases k <;> first | rfl | cases hk
    · rw [List.forall₂_map_left_iff, List.forall₂_map_right_iff]
      refine List.forall₂_same.mpr fun c hc => ?_
      obtain ⟨t, ht⟩ := h.token_of_leaf hk hc
      rw [ht]
      exact .token t
  rw [migrated_leaf moved hk h]
  cases hMoved : moved with
  | false =>
    rw [hMoved] at hSame
    exact hSame (by simp) (by simp)
  | true =>
    rw [hMoved] at hSame
    simp only [if_true]
    rcases Pass.exists_of_leaf hk h with ⟨t, ts, hEq⟩ | ⟨m, t, hEq⟩
    · rw [hEq] at hSame ⊢
      rw [editLeaf_name]
      cases t with
      | none => exact hSame (fun _ => rfl) fun _ => rfl
      | some t =>
        simp only
        split
        · rename_i hName
          exact .name rfl hName
        · rename_i hName
          exact hSame (fun _ => by simpa using hName) fun _ => rfl
    · rw [hEq] at hSame ⊢
      rw [editLeaf_call]
      by_cases hCall : formatCalls.selects m = true
      · rw [if_pos hCall]
        exact .call rfl hCall
      · rw [if_neg hCall]
        exact hSame (fun _ => rfl) fun _ => by simpa [isFormatCall] using hCall

/-- A class becomes what is left of it after its edit becomes. -/
theorem becomes_declaration {p : ClassParts} (h : p.WellFormed)
    (hChildren : ∀ c ∈ (recipe.editParts newSupertype p).children,
      Becomes moved c.2 (migrated moved c.2).tokens) :
    Becomes moved p.toNode (migrated moved p.toNode).tokens := by
  rw [migrated_declaration moved h, tokens_children]
  by_cases hKnown : p.denoted?.isSome = true
  · exact .declaration hKnown (becomes_children hChildren)
  · have hSame : recipe.editParts newSupertype p = p := by
      rw [Recipe.editParts, if_pos (by simpa using hKnown)]
    rw [hSame] at hChildren ⊢
    refine .branch (fun _ => rfl) (fun _ => rfl) ?_ (becomes_children hChildren)
    show (Supertype.denoted? p.toNode).isSome = false
    rw [ClassParts.denoted_toNode]
    simpa using hKnown

/-- What the migration makes of a well-formed node is what `Becomes` says. -/
theorem becomes_migrated {n : Node} (h : n.WellFormed) :
    Becomes moved n (migrated moved n).tokens := by
  refine induct_migrated (P := fun n => Becomes moved n (migrated moved n).tokens) becomes_token ?_
    (fun p hp hChildren => becomes_declaration hp hChildren) h
  intro k cs hk hFine hChildren
  by_cases hLeaf : k.isLeaf = true
  · exact becomes_leaf hLeaf hFine
  · exact becomes_branch (by simpa using hLeaf) hk hChildren

-- ---------------------------------------------------------------------------
-- Units
-- ---------------------------------------------------------------------------

/-- Nothing of a unit is edited but what becomes of its types, its imports if some class is moved,
and then, where no package stands before them, the trivia before the first type. -/
structure EditsOnly (moved : Bool) (p q : UnitParts) : Prop where
  package : q.package = p.package
  imports : moved = false → q.imports = p.imports
  types : ∃ tss, List.Forall₂ (Becomes moved) p.types tss ∧
    (q.types.flatMap Node.tokens = tss.flatten ∨
      moved = true ∧ p.package = none ∧
        ∃ l, q.types.flatMap Node.tokens = tss.flatten.modifyHead (Token.withLeading l))
  endMarker : q.endMarker = p.endMarker

theorem becomes_types {p : UnitParts} (hp : p.Sound) :
    List.Forall₂ (Becomes moved) p.types (p.types.map fun n => (migrated moved n).tokens) := by
  rw [List.forall₂_map_right_iff]
  exact List.forall₂_same.mpr fun n hn => becomes_migrated (hp.types n hn).2

theorem tokens_mapTypes (p : UnitParts) :
    (p.mapTypes (migrated moved)).types.flatMap Node.tokens =
      (p.types.map fun n => (migrated moved n).tokens).flatten := by
  rw [UnitParts.mapTypes, List.flatMap_map, List.flatMap_def]

/-- A unit whose types are migrated and whose imports are edited is edited nowhere else. -/
theorem editsOnly_of_reimports {p q : UnitParts} (hp : p.Sound)
    (h : (p.mapTypes (migrated true)).Reimports q) : EditsOnly true p q where
  package := h.package
  imports := by simp
  types := by
    refine ⟨_, becomes_types hp, ?_⟩
    by_cases hPackage : p.package = none
    · obtain ⟨l, hl⟩ := h.types.exists_tokens
      rw [tokens_mapTypes] at hl
      exact Or.inr ⟨rfl, hPackage, l, hl⟩
    · rw [h.kept hPackage, tokens_mapTypes]
      exact Or.inl rfl
  endMarker := h.endMarker

/-- **The migration of a resolved unit edits nothing else.** -/
theorem run_edits_only [TreeSitter] [LawfulTreeSitter] [ReadsTemplate] {classpath : Classpath} {text : String}
    {unit : Node} (h : resolve classpath text = .ok unit) (j : Journal) :
    ∃ (p q : UnitParts) (changed : Bool), unit = p.toUnit ∧
      (recipe.run unit j).1 = .ok ⟨q.toUnit, changed⟩ ∧
      if Gate.applies skeleton unit then EditsOnly (moves unit) p q else q = p := by
  obtain ⟨p, rfl, hp, hUnit, -⟩ := exists_parts_of_resolve h
  obtain ⟨q, changed, hRun, -, hNot, hGate⟩ := exists_run hp hUnit j
  refine ⟨p, q, changed, rfl, hRun, ?_⟩
  split
  · rename_i hApplies
    obtain ⟨-, hSame, hMoved⟩ := hGate hApplies
    cases hMoves : moves p.toUnit with
    | true => exact editsOnly_of_reimports hp (hMoved hMoves)
    | false =>
      obtain rfl := hSame hMoves
      exact ⟨rfl, fun _ => rfl, ⟨_, becomes_types hp, Or.inl (tokens_mapTypes p)⟩, rfl⟩
  · rename_i hApplies
    exact (hNot (by simpa using hApplies)).1

open Sample in
theorem run_edits_only_remarked : letI := library [remarked, holder]
    ∃ (unit : Node) (p q : UnitParts) (changed : Bool),
      resolve ⟨defaultStubs⟩ remarked.text = .ok unit ∧ unit = p.toUnit ∧
      (recipe.run unit {}).1 = .ok ⟨q.toUnit, changed⟩ ∧ EditsOnly true p q := by
  let _ := library [remarked, holder]
  have _ := lawful_holder isSound_remarked
  have _ := readsTemplate_holder remarked_ne_holder
  obtain ⟨unit, hUnit, hSome⟩ := Option.map_eq_some_iff.mp moves_remarked
  obtain ⟨hGate, hMoves⟩ := Prod.mk.inj hSome
  have h : resolve ⟨defaultStubs⟩ remarked.text = .ok unit := (resolve_iff isSound_remarked).mpr hUnit
  obtain ⟨p, q, changed, hParts, hRun, hEdits⟩ := run_edits_only h {}
  rw [hGate, hMoves, if_pos rfl] at hEdits
  exact ⟨unit, p, q, changed, h, hParts, hRun, hEdits⟩

end Appender

end SourceMigration
