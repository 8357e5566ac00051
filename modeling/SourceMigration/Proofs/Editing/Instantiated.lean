import SourceMigration.Editing.Supertype
import SourceMigration.Proofs.Editing.Lasting
import SourceMigration.Proofs.Parsing.Types
import SourceMigration.Proofs.Recipe.Migrated
import SourceMigration.Proofs.Tree.Recast
import SourceMigration.Proofs.Tree.Serviceable

/-!
# SourceMigration — when a template can be instantiated

A template fits some types if no two different ones share a simple name, if the template without the
blanks around it is exactly one class type, and if the names in it and the types are spelled after each
other: a simple name after the type of that simple name, a dotted name after the type of that full name.
A template can be instantiated exactly with the types that it fits. The tree then prints as the template
does, and each name in it denotes the type that it is spelled after. If a template cannot be instantiated,
the exchange of a supertype for it stops before anything is scheduled or recorded.

## Results

* `bindings_eq_ok_iff`    — types can be bound unless two of them clash.
* `meaning_eq_some_iff`   — a name stands for the type that it is spelled after.
* `instantiate_eq_ok_iff` — what a template is instantiated as.
* `instantiates_exactly`  — a template can be instantiated exactly with the types that it fits.
-/

namespace SourceMigration

-- ---------------------------------------------------------------------------
-- Edits of trees
-- ---------------------------------------------------------------------------

namespace Node

/-- Nodes that are replaced by others with the same tokens leave the tokens of a tree as they are. -/
theorem tokens_replaceAll {skip : NodeKind → Bool} {f : Node → Option Node}
    (hf : ∀ n m, f n = some m → m.tokens = n.tokens) (n : Node) :
    (n.replaceAll skip f).1.tokens = n.tokens := by
  induction n using Node.induct with
  | token t =>
    rw [replaceAll]
    cases hNew : f (.token t) with
    | none => rfl
    | some m => exact hf _ _ hNew
  | branch k cs ih =>
    cases hNew : f (.branch k cs) with
    | some m => simpa only [replaceAll, hNew] using hf _ _ hNew
    | none =>
      rw [replaceAll_branch hNew]
      split
      · rfl
      · rw [tokens, tokens, tokensOf_eq, tokensOf_eq, List.flatMap_map]
        exact List.flatMap_congr fun c hc => ih c hc

end Node

-- ---------------------------------------------------------------------------
-- Names and the types they are spelled after
-- ---------------------------------------------------------------------------

/-- What is found wrong in the text of a template, or in the types for it; the conversion has not broken
off. -/
def TemplateFault.IsReported (why : TemplateFault) : Prop :=
  ∀ template refusal, why = .invalid template (.refused refusal) → refusal.IsReported

namespace Template

/-- No two different types share a simple name. -/
def Apart (types : List TypeName) : Prop :=
  ∀ t ∈ types, ∀ u ∈ types, t.simple = u.simple → t = u

/-- A name that is spelled after a type: a simple name after the simple name of the type, a dotted one
after the full name. -/
def SpelledAfter (name : Node) (t : TypeName) : Prop :=
  match name.nameParts with
  | [simple] => t.simple = simple
  | _ => t.text = name.dottedName

/-- A template whose text is exactly one class type, with names and types that go together. -/
structure Fits [TreeSitter] (template : String) (types : List TypeName) (tree : Node) : Prop where
  apart : Apart types
  single : Parsing.SingleType (Text.strip template) tree
  bound : ∀ n ∈ tree.walk, n.form = .name → ∃ t ∈ types, SpelledAfter n t
  used : ∀ t ∈ types, ∃ n ∈ tree.walk, n.form = .name ∧ SpelledAfter n t

variable {template : String} {types bound : List TypeName} {t : TypeName} {n m tree : Node}

theorem Apart.mono (h : Apart types) (hSub : ∀ t ∈ bound, t ∈ types) : Apart bound :=
  fun t ht u hu => h t (hSub t ht) u (hSub u hu)

/-- Types that clash are told apart from types that do not. -/
theorem bindings_spec (h : Apart bound) (types : List TypeName) :
    match bindings bound types with
    | .ok all => Apart all ∧ ∀ t, t ∈ all ↔ t ∈ bound ∨ t ∈ types
    | .error _ => ¬Apart (bound ++ types) := by
  induction types generalizing bound with
  | nil => exact ⟨h, fun t => by simp⟩
  | cons t ts ih =>
    rw [bindings]
    cases hFind : bound.find? (·.simple == t.simple) with
    | none =>
      have hNew : ∀ u ∈ bound, u.simple ≠ t.simple := by simpa using hFind
      have hApart : Apart (bound ++ [t]) := by
        intro u hu v hv hSame
        rw [List.mem_append, List.mem_singleton] at hu hv
        obtain hu | rfl := hu <;> obtain hv | rfl := hv
        · exact h u hu v hv hSame
        · exact absurd hSame (hNew u hu)
        · exact absurd hSame.symm (hNew v hv)
        · rfl
      simpa [or_assoc] using ih hApart
    | some u =>
      have hMem : u ∈ bound := List.mem_of_find?_eq_some hFind
      have hSame : u.simple = t.simple := by simpa using List.find?_some hFind
      by_cases hEq : u = t
      · -- the type is there already
        subst hEq
        simp only [if_pos]
        have hSpec := ih h
        cases hAll : bindings bound ts with
        | ok all =>
          rw [hAll] at hSpec
          refine ⟨hSpec.1, fun v => (hSpec.2 v).trans ?_⟩
          rw [List.mem_cons, ← or_assoc, or_iff_left_of_imp fun hv : v = u => hv ▸ hMem]
        | error why =>
          rw [hAll] at hSpec
          exact fun hApart => hSpec (hApart.mono fun v hv => by
            rw [List.mem_append, List.mem_cons]
            exact (List.mem_append.mp hv).imp_right .inr)
      · simp only [if_neg hEq]
        exact fun hApart => hEq (hApart u (List.mem_append_left _ hMem) t
          (List.mem_append_right _ List.mem_cons_self) hSame)

theorem apart_nil : Apart [] := nofun

/-- The types that are bound are all that are given, and no two of them clash. -/
theorem apart_of_bindings (h : bindings [] types = .ok bound) :
    Apart bound ∧ ∀ t, t ∈ bound ↔ t ∈ types := by
  have hSpec := bindings_spec apart_nil types
  simpa only [h, List.not_mem_nil, false_or] using hSpec

/-- Types can be bound if and only if they do not clash. -/
theorem bindings_eq_ok_iff (types : List TypeName) :
    (∃ bound, bindings [] types = .ok bound) ↔ Apart types := by
  constructor
  · rintro ⟨bound, h⟩
    obtain ⟨hApart, hMem⟩ := apart_of_bindings h
    exact hApart.mono fun t ht => (hMem t).mpr ht
  · intro h
    have hSpec := bindings_spec apart_nil types
    cases hAll : bindings [] types with
    | ok bound => exact ⟨bound, rfl⟩
    | error why =>
      rw [hAll] at hSpec
      exact absurd h hSpec

/-- The first that satisfies a condition that no two satisfy. -/
theorem find_eq_some_iff {p : TypeName → Bool}
    (hUnique : ∀ t ∈ bound, ∀ u ∈ bound, p t = true → p u = true → t = u) :
    bound.find? p = some t ↔ t ∈ bound ∧ p t = true := by
  constructor
  · exact fun h => ⟨List.mem_of_find?_eq_some h, List.find?_some h⟩
  · rintro ⟨ht, hp⟩
    cases hFind : bound.find? p with
    | none => exact absurd hp (List.find?_eq_none.mp hFind t ht)
    | some u =>
      rw [hUnique u (List.mem_of_find?_eq_some hFind) t ht (List.find?_some hFind) hp]

theorem spelledAfter_simple {simple : String} (h : n.nameParts = [simple]) :
    SpelledAfter n t ↔ t.simple = simple := by
  rw [SpelledAfter, h]

theorem spelledAfter_dotted (h : ∀ simple, n.nameParts ≠ [simple]) :
    SpelledAfter n t ↔ t.text = n.dottedName := by
  unfold SpelledAfter
  split
  · rename_i simple hParts
    exact absurd hParts (h simple)
  · exact Iff.rfl

/-- Of types that do not clash, a name stands for the one that it is spelled after. -/
theorem meaning_eq_some_iff (h : Apart bound) :
    meaning? bound n = some t ↔ t ∈ bound ∧ SpelledAfter n t := by
  unfold meaning?
  split
  · rename_i simple hParts
    have hUnique : ∀ t ∈ bound, ∀ u ∈ bound, (t.simple == simple) = true →
        (u.simple == simple) = true → t = u := by
      intro t ht u hu hSimple hSimple'
      exact h t ht u hu ((beq_iff_eq.mp hSimple).trans (beq_iff_eq.mp hSimple').symm)
    rw [find_eq_some_iff hUnique, beq_iff_eq, spelledAfter_simple hParts]
  · rename_i hParts
    have hUnique : ∀ t ∈ bound, ∀ u ∈ bound, (t.text == n.dottedName) = true →
        (u.text == n.dottedName) = true → t = u := by
      rintro ⟨a⟩ - ⟨b⟩ - ha hb
      exact congrArg TypeName.mk ((beq_iff_eq.mp ha).trans (beq_iff_eq.mp hb).symm)
    rw [find_eq_some_iff hUnique, beq_iff_eq, spelledAfter_dotted hParts]

theorem mem_namesIn : n ∈ namesIn tree ↔ n ∈ tree.walk ∧ n.form = .name := by
  rw [namesIn, List.mem_filter]
  refine and_congr_right fun _ => ?_
  cases n with
  | token t => simp [Node.form]
  | branch k cs => cases k <;> simp [Node.form, NodeKind.form]

section Bound

variable (hApart : Apart bound)
include hApart

/-- No name is left over if each is spelled after a type. -/
theorem unbound_isEmpty_iff :
    ((namesIn tree).filter fun n => (meaning? bound n).isNone).isEmpty = true ↔
      ∀ n ∈ tree.walk, n.form = .name → ∃ t ∈ bound, SpelledAfter n t := by
  rw [List.isEmpty_iff, List.filter_eq_nil_iff]
  have hName (n : Node) :
      ¬(meaning? bound n).isNone = true ↔ ∃ t ∈ bound, SpelledAfter n t := by
    rw [Option.isNone_iff_eq_none, ← ne_eq, Option.ne_none_iff_exists']
    exact exists_congr fun t => meaning_eq_some_iff hApart
  simp only [hName, mem_namesIn, and_imp]

/-- No type is left over if some name is spelled after each. -/
theorem unused_isEmpty_iff :
    (bound.filter fun t => !((namesIn tree).filterMap (meaning? bound)).contains t).isEmpty = true ↔
      ∀ t ∈ bound, ∃ n ∈ tree.walk, n.form = .name ∧ SpelledAfter n t := by
  rw [List.isEmpty_iff, List.filter_eq_nil_iff]
  refine forall₂_congr fun t ht => ?_
  simp only [Bool.not_eq_true', Bool.not_eq_false, List.contains_iff_mem, List.mem_filterMap,
    mem_namesIn, meaning_eq_some_iff hApart, ht, true_and, and_assoc]

end Bound

/-- Types that clash are no fault of the text of a template. -/
theorem bindings_ne_invalid (types : List TypeName) {refusal : Parsing.TypeRefusal} :
    bindings bound types ≠ .error (.invalid template refusal) := by
  induction types generalizing bound with
  | nil => rw [bindings]; simp
  | cons t ts ih =>
    rw [bindings]
    split
    · exact ih
    · split
      · exact ih
      · simp

/-- What a template is instantiated as with the types that it fits; with others it is not at all. -/
theorem instantiate_eq_ok_iff [TreeSitter] {fragment : Node} :
    instantiate template types = .ok fragment ↔
      ∃ bound tree, bindings [] types = .ok bound ∧ Fits template types tree ∧
        fragment = (tree.replaceAll (fun _ => false) (bindName? bound)).1.withLeading "" := by
  unfold instantiate
  cases hBound : bindings [] types with
  | error why => exact ⟨nofun, fun ⟨_, _, h, _⟩ => (nomatch h)⟩
  | ok bound =>
    have hTypes : Apart types := (bindings_eq_ok_iff types).mp ⟨bound, hBound⟩
    obtain ⟨hApart, hMem⟩ := apart_of_bindings hBound
    simp only [bind, Except.bind]
    constructor
    · intro h
      split at h
      · cases h
      · rename_i tree hParse
        split at h
        · cases h
        · rename_i hUnbound
          split at h
          · cases h
          · rename_i hUnused
            simp only [Bool.not_eq_true', Bool.not_eq_false, unbound_isEmpty_iff hApart,
              unused_isEmpty_iff hApart, hMem] at hUnbound hUnused
            exact ⟨bound, tree, rfl, ⟨hTypes, Parsing.parseType_eq_ok_iff.mp hParse, hUnbound, hUnused⟩,
              (Except.ok.inj h).symm⟩
    · rintro ⟨_, tree, ⟨⟩, ⟨-, hSingle, hUnbound, hUnused⟩, rfl⟩
      simp only [← hMem, ← unbound_isEmpty_iff hApart, ← unused_isEmpty_iff hApart] at hUnbound hUnused
      simp only [Parsing.parseType_eq_ok_iff.mpr hSingle, hUnbound, hUnused, Bool.not_true,
        Bool.false_eq_true, if_false]

/-- What stands in the way of a template is one of the faults that are reported of templates. -/
theorem reported_of_instantiate [TreeSitter] [LawfulTreeSitter] {why : TemplateFault}
    (h : instantiate template types = .error why) : why.IsReported := by
  rintro template refusal rfl
  unfold instantiate at h
  cases hBound : bindings [] types with
  | error why =>
    rw [hBound] at h
    cases h
    exact absurd hBound (bindings_ne_invalid types)
  | ok bound =>
    simp only [hBound, bind, Except.bind] at h
    split at h
    · rename_i hParse
      cases h
      exact Parsing.reported_of_parseType hParse refusal rfl
    · split at h
      · cases h
      · split at h <;> cases h

-- ---------------------------------------------------------------------------
-- The trees of templates
-- ---------------------------------------------------------------------------

/-- A name that stands for a type becomes the same name with that type, and nothing else is replaced. -/
theorem bindName_eq_some_iff : bindName? bound n = some m ↔
    ∃ type cs t, n = .branch (.name type) cs ∧ meaning? bound n = some t ∧
      m = .branch (.name (some t)) cs := by
  unfold bindName?
  constructor
  · intro h
    split at h
    · rename_i type cs
      obtain ⟨t, ht, rfl⟩ := Option.map_eq_some_iff.mp h
      exact ⟨type, cs, t, rfl, ht, rfl⟩
    · cases h
  · rintro ⟨type, cs, t, rfl, ht, rfl⟩
    exact Option.map_eq_some_iff.mpr ⟨t, ht, rfl⟩

theorem exists_bindName (h : Apart bound) (hName : n.form = .name)
    (hBound : ∃ t ∈ bound, SpelledAfter n t) : ∃ m, bindName? bound n = some m := by
  obtain ⟨t, ht, hSpelled⟩ := hBound
  cases n with
  | token _ => cases hName
  | branch k cs =>
    cases k with
    | name type =>
      exact ⟨_, bindName_eq_some_iff.mpr
        ⟨type, cs, t, rfl, (meaning_eq_some_iff h).mpr ⟨ht, hSpelled⟩, rfl⟩⟩
    | _ => cases hName

/-- Where all names are bound, no others are left. -/
theorem exists_of_mem_walk (h : tree.Sturdy)
    (hBound : ∀ n ∈ tree.walk, n.form = .name → ∃ m, bindName? bound n = some m) {x : Node}
    (hx : x ∈ (tree.replaceAll (fun _ => false) (bindName? bound)).1.walk) (hName : x.form = .name) :
    ∃ n ∈ tree.walk, bindName? bound n = some x := by
  induction h with
  | token t =>
    rw [Node.replaceAll_token _ rfl, Node.walk, List.mem_singleton] at hx
    subst hx
    cases hName
  | @branch k cs hFills hIntact hSpelled hChildren ih =>
    have hFine : (Node.branch k cs).Sturdy := .branch hFills hIntact hSpelled hChildren
    have hSelf : Node.branch k cs ∈ (Node.branch k cs).walk := by simp [Node.walk]
    cases hNew : bindName? bound (.branch k cs) with
    | some m =>
      simp only [Node.replaceAll, hNew] at hx
      obtain ⟨-, hSturdy⟩ := sturdy_bindName hFine hNew
      obtain ⟨_, _, t, -, -, rfl⟩ := bindName_eq_some_iff.mp hNew
      obtain rfl | ⟨t, rfl⟩ := hSturdy.wellFormed.eq_or_token rfl hx
      · exact ⟨_, hSelf, hNew⟩
      · cases hName
    | none =>
      rw [Node.replaceAll_branch hNew, if_neg (by simp), Node.walk, Node.walkOf_eq, List.mem_cons,
        List.flatMap_map, List.mem_flatMap] at hx
      obtain rfl | ⟨c, hc, hx⟩ := hx
      · obtain ⟨m, hm⟩ := hBound _ hSelf hName
        cases hNew.symm.trans hm
      · obtain ⟨n, hn, hSome⟩ := ih c hc (fun n hn => hBound n (Node.mem_walk_of_child hc hn)) hx
        exact ⟨n, Node.mem_walk_of_child hc hn, hSome⟩

/-- The tree of a template that fits some types. -/
theorem Fits.instantiated [TreeSitter] [LawfulTreeSitter] (h : Fits template types tree)
    (hBound : bindings [] types = .ok bound) :
    let fragment := (tree.replaceAll (fun _ => false) (bindName? bound)).1.withLeading ""
    fragment.text = Text.strip template ∧ fragment.leading = "" ∧
      ∀ n ∈ fragment.walk, n.form = .name →
        ∃ t ∈ types, ∃ cs, n = .branch (.name (some t)) cs ∧ SpelledAfter n t := by
  obtain ⟨hApart, hMem⟩ := apart_of_bindings hBound
  obtain ⟨-, hSturdy, hText, hLeading⟩ := h.single.printed
  have hNames : ∀ n ∈ tree.walk, n.form = .name → ∃ m, bindName? bound n = some m := by
    intro n hn hName
    obtain ⟨t, ht, hSpelled⟩ := h.bound n hn hName
    exact exists_bindName hApart hName ⟨t, (hMem t).mpr ht, hSpelled⟩
  have hTokens : (tree.replaceAll (fun _ => false) (bindName? bound)).1.tokens = tree.tokens := by
    refine Node.tokens_replaceAll (fun n m hNew => ?_) tree
    obtain ⟨_, _, _, rfl, -, rfl⟩ := bindName_eq_some_iff.mp hNew
    rfl
  have hSame : (tree.replaceAll (fun _ => false) (bindName? bound)).1.leading = "" := by
    rw [Node.leading, hTokens, ← Node.leading, hLeading]
  -- nothing stands before the tree, so nothing is taken away there
  have hFronted := (Node.sturdy_replaceAll (fun _ => false) (f := bindName? bound) (fun _ => rfl)
    (fun _ _ => sturdy_bindName) hSturdy).2.fronted
  have hSelf := hFronted.withLeading_leading
  rw [hSame] at hSelf
  intro fragment
  rw [show fragment = _ from hSelf]
  refine ⟨by rw [Node.text, hTokens, ← Node.text, hText], hSame, fun n hn hName => ?_⟩
  obtain ⟨x, -, hNew⟩ := exists_of_mem_walk hSturdy hNames hn hName
  obtain ⟨type, cs, t, rfl, ht, rfl⟩ := bindName_eq_some_iff.mp hNew
  obtain ⟨hIn, hSpelled⟩ := (meaning_eq_some_iff hApart).mp ht
  exact ⟨t, (hMem t).mp hIn, cs, rfl, hSpelled⟩

/-- **A template can be instantiated exactly with the types that it fits.** The tree prints as the template
does without the blanks around it, nothing stands before it, and each name in it denotes one of the types,
which it is spelled after. If the template cannot be instantiated, the exchange of any supertype for it
stops with what is reported of the template, and leaves the queue and the journal as they were. -/
theorem instantiates_exactly [TreeSitter] [LawfulTreeSitter] (template : String) (types : List TypeName) :
    ((∃ fragment, instantiate template types = .ok fragment) ↔ ∃ tree, Fits template types tree) ∧
      match instantiate template types with
      | .ok fragment =>
        fragment.text = Text.strip template ∧ fragment.leading = "" ∧
          ∀ n ∈ fragment.walk, n.form = .name →
            ∃ t ∈ types, ∃ cs, n = .branch (.name (some t)) cs ∧ SpelledAfter n t
      | .error why => why.IsReported ∧
        ∀ (companions : List Pass) (decl clause : Node) (w : Workshop),
          ((SupertypeChange.mk template types companions).apply decl clause).run.run w =
            (.error (.template why), w) := by
  refine ⟨⟨fun ⟨_, h⟩ => ?_, fun ⟨tree, hFits⟩ => ?_⟩, ?_⟩
  · obtain ⟨_, tree, -, hFits, -⟩ := instantiate_eq_ok_iff.mp h
    exact ⟨tree, hFits⟩
  · obtain ⟨bound, hBound⟩ := (bindings_eq_ok_iff types).mpr hFits.apart
    exact ⟨_, instantiate_eq_ok_iff.mpr ⟨bound, tree, hBound, hFits, rfl⟩⟩
  cases h : instantiate template types with
  | error why =>
    refine ⟨reported_of_instantiate h, fun companions decl clause w => ?_⟩
    unfold SupertypeChange.apply
    rw [h]
    rfl
  | ok fragment =>
    obtain ⟨bound, tree, hBound, hFits, rfl⟩ := instantiate_eq_ok_iff.mp h
    exact hFits.instantiated hBound

open Sample Appender in
theorem instantiates_exactly_newSupertype : letI := library [remarked, holder]
    instantiate recipe.change.template recipe.change.types = .ok newSupertype ∧
      (∃ tree, Fits recipe.change.template recipe.change.types tree) ∧
      newSupertype.text = Text.strip recipe.change.template ∧ newSupertype.leading = "" ∧
        ∀ n ∈ newSupertype.walk, n.form = .name →
          ∃ t ∈ recipe.change.types, ∃ cs, n = .branch (.name (some t)) cs ∧ SpelledAfter n t := by
  let _ := library [remarked, holder]
  have _ := lawful_holder isSound_remarked
  have _ := readsTemplate_holder remarked_ne_holder
  have hTemplate : instantiate recipe.change.template recipe.change.types = .ok newSupertype :=
    instantiate_template
  have hAll := instantiates_exactly recipe.change.template recipe.change.types
  rw [hTemplate] at hAll
  exact ⟨hTemplate, hAll.1.mp ⟨_, rfl⟩, hAll.2⟩

end Template

end SourceMigration
