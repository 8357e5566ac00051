import SourceMigration.Proofs.Editing.Draining
import SourceMigration.Proofs.Recipe.Omission
import SourceMigration.Proofs.Tree.Recast

/-!
# SourceMigration — names and calls of another type

One type is put in the place of another at single names and calls, and only below the package and the
imports. A name of the old type is written anew, simple if it was simple and in full if it had a point,
and a call is told of the new type where its method was declared on the old one or returns it. The pass
then takes an import of the old type out and puts one of the new type in, each where it is due.

Nothing in the types is left to a second run. Of several imports of the old type, though, the first run
takes out one, so a second run may take out another, and the new import may then come to stand at the
front of the text and take over the trivia of the first type.

## Results

* `retyped_of_leaf`, `not_concerns_of_retyped` — what becomes of a name or a call.
* `exists_of_remove_import`, `exists_of_add_import` — what the two edits of imports leave.
* `retypes_exactly` — all that a change of a type does to a unit, and what a second one does.
* `type_moved`      — the first type may be moved by a second change.
-/

namespace SourceMigration

-- ---------------------------------------------------------------------------
-- Names and calls
-- ---------------------------------------------------------------------------

namespace Pass

variable {old new : TypeName} {n m : Node}

/-- Whether a node is a name of a type, or a call of a method that is declared on it or returns it. -/
def concerns (t : TypeName) : Node → Bool
  | .branch (.name u) _ => u = some t
  | .branch (.call (some m)) _ => m.declaring = t ∨ m.returns = some t
  | _ => false

@[simp] theorem concerns_withLeading (t : TypeName) (n : Node) (l : String) :
    concerns t (n.withLeading l) = concerns t n := by
  cases n with
  | token u => rfl
  | branch k cs =>
    rw [Node.withLeading_branch]
    cases k with
    | call m => cases m <;> rfl
    | _ => rfl

/-- What the change of a type makes of a name or a call. -/
inductive Retyped (old new : TypeName) : Node → Node → Prop where
  /-- A name of another type, or of none. -/
  | other {t : Option TypeName} (h : t ≠ some old) (cs : List (Field × Node)) :
      Retyped old new (.branch (.name t) cs) (.branch (.name t) cs)
  /-- Whatever stood before the old name stands before the new one. -/
  | simple {cs : List (Field × Node)} (h : (Node.branch (.name (some old)) cs).nameParts.length ≤ 1) :
      Retyped old new (.branch (.name (some old)) cs)
        (Node.ofDotted new.simple (Node.branch (.name (some old)) cs).leading (some new))
  | dotted {cs : List (Field × Node)} (h : 1 < (Node.branch (.name (some old)) cs).nameParts.length) :
      Retyped old new (.branch (.name (some old)) cs)
        (Node.ofDotted new.text (Node.branch (.name (some old)) cs).leading (some new))
  | unattributed (cs : List (Field × Node)) :
      Retyped old new (.branch (.call none) cs) (.branch (.call none) cs)
  /-- Of the method only the types are others, and the token of the call stays. -/
  | call (m : MethodType) (cs : List (Field × Node)) :
      Retyped old new (.branch (.call (some m)) cs)
        (.branch (.call (some { m with
          declaring := if m.declaring = old then new else m.declaring
          returns := if m.returns = some old then some new else m.returns })) cs)

theorem retyped_of_leaf {k : NodeKind} {cs : List (Field × Node)} (hk : k.isLeaf = true) :
    Retyped old new (.branch k cs)
      ((retypedName old new (.branch k cs)).mapLeaves (retypedCall old new)) := by
  cases k with
  | name t =>
    -- the new name is no call
    have hName : (retypedName old new (.branch (.name t) cs)).mapLeaves (retypedCall old new) =
        retypedName old new (.branch (.name t) cs) := by
      rw [retypedName_name]
      split <;> rfl
    rw [hName, retypedName_name]
    by_cases hOld : t = some old
    · subst hOld
      rw [if_pos rfl]
      split
      · rename_i hDotted
        exact .dotted hDotted
      · rename_i hSimple
        exact .simple (Nat.le_of_not_lt hSimple)
    · rw [if_neg hOld]
      exact .other hOld cs
  | call m =>
    rw [retypedName_call, Node.mapLeaves_leaf rfl, retypedCall_call]
    cases m with
    | none => exact .unattributed cs
    | some m => exact .call m cs
  | _ => cases hk

/-- What the old type has been replaced in does not concern it any more. -/
theorem not_concerns_of_retyped (hOther : old ≠ new) (h : Retyped old new n m) :
    concerns old m = false := by
  cases h with
  | other hNot => simpa [concerns] using hNot
  | simple | dotted => simp [concerns, Node.ofDotted, hOther.symm]
  | unattributed => rfl
  | call m cs =>
    simp only [concerns, decide_eq_false_iff_not, not_or]
    constructor
    · split
      · exact hOther.symm
      · assumption
    · split
      · simpa using hOther.symm
      · assumption

/-- What does not concern the old type is not replaced. -/
theorem change_of_not_concerns (h : concerns old n = false) :
    changeName? old new n = none ∧ changeMethod? old new n = none := by
  cases n with
  | token u => exact ⟨rfl, rfl⟩
  | branch k cs =>
    cases k with
    | name t =>
      refine ⟨?_, rfl⟩
      cases t with
      | none => rfl
      | some t => simpa [concerns, changeName?] using h
    | call m =>
      refine ⟨rfl, ?_⟩
      cases m with
      | none => rfl
      | some m => simpa [concerns, changeMethod?] using h
    | _ => exact ⟨rfl, rfl⟩

-- ---------------------------------------------------------------------------
-- Units
-- ---------------------------------------------------------------------------

variable {p q : UnitParts}

/-- What is made of a type, side by side with the type. -/
theorem recast_onType (hn : n.WellFormed) :
    n.Recast (Retyped old new) (onType (.changeType old new) n) := by
  show n.Recast _ ((n.mapLeaves (retypedName old new)).mapLeaves (retypedCall old new))
  rw [Node.mapLeaves_mapLeaves]
  exact Node.recast_mapLeaves hn fun _ _ hk _ => retyped_of_leaf hk

/-- Nothing in the types of a unit concerns a type. -/
def Untouched (t : TypeName) (p : UnitParts) : Prop :=
  ∀ n ∈ p.types, ∀ m ∈ n.walk, concerns t m = false

theorem untouched_onType (hp : p.Formed) (hOther : old ≠ new) :
    Untouched old (p.mapTypes (onType (.changeType old new))) := by
  intro n hn
  have hFine := ((formed_onType (.changeType old new) hp).types n hn).2
  obtain ⟨m, hm, rfl⟩ := List.mem_map.mp hn
  refine (recast_onType (hp.types m hm).2).forall_walk (fun t => rfl) (fun k cs hk => ?_)
    (fun a b hRetyped => ?_) hFine
  · cases k <;> first | rfl | cases hk
  · refine ⟨not_concerns_of_retyped hOther hRetyped, ?_⟩
    cases hRetyped <;> exact ⟨_, _, rfl, rfl⟩

theorem Untouched.reimports {t : TypeName} (h : Untouched t p) (hFront : p.Reimports q) :
    Untouched t q := by
  intro n hn m hm
  obtain ⟨n', hn', l, rfl⟩ := hFront.types.exists_of_mem hn
  obtain ⟨m', hm', l', rfl⟩ := Node.exists_of_mem_walk_withLeading hm
  rw [concerns_withLeading]
  exact h n' hn' m' hm'

/-- Where nothing is replaced in the types, nothing is replaced in the unit. -/
theorem replaceAll_untouched (hp : p.Formed) {f : Node → Option Node} (hf : Node.OnlyLeaves f)
    (hNone : ∀ n ∈ p.types, ∀ m ∈ n.walk, f m = none) :
    p.toUnit.replaceAll isHeaderKind f = (p.toUnit, 0) := by
  have hEach : ∀ c ∈ p.toUnit.children, (c.2.replaceAll isHeaderKind f).2 = 0 := by
    intro c hc
    simp only [UnitParts.toUnit, Node.children, List.mem_append, List.mem_map, Option.mem_toList] at hc
    rcases hc with ((⟨n, hn, rfl⟩ | ⟨n, hn, rfl⟩) | ⟨n, hn, rfl⟩) | ⟨n, hn, rfl⟩
    · rw [replaceAll_header hf (Or.inl (hp.package n hn).1)]
    · rw [replaceAll_header hf (Or.inr (hp.imports n hn).1)]
    · exact Node.count_of_kept (hNone n hn)
    · obtain ⟨t, rfl⟩ := Node.exists_token_of_form (hp.endMarker n hn)
      exact Node.count_of_kept fun m hm => by
        obtain rfl : m = .token t := by simpa [Node.walk] using hm
        exact hf.token t
  have hZero : (p.toUnit.replaceAll isHeaderKind f).2 = 0 := by
    unfold UnitParts.toUnit at hEach ⊢
    rw [Node.count_branch (hf.branch .unit _ rfl)]
    split
    · rfl
    · exact Node.count_replaceAllIn_of_kept hEach
  exact Prod.ext (Node.eq_of_replaceAll hZero) hZero

theorem changeTypes_untouched (hp : p.Formed) (h : Untouched old p) :
    changeTypes old new p.toUnit = (p.toUnit, 0, 0) := by
  have hNames := replaceAll_untouched hp (onlyLeaves_name old new) fun n hn m hm =>
    (change_of_not_concerns (h n hn m hm)).1
  have hCalls := replaceAll_untouched hp (onlyLeaves_method old new) fun n hn m hm =>
    (change_of_not_concerns (h n hn m hm)).2
  unfold changeTypes
  simp only [hNames, hCalls]

end Pass

-- ---------------------------------------------------------------------------
-- Imports
-- ---------------------------------------------------------------------------

namespace Imports

variable {p q : UnitParts} {s t : TypeName}

theorem isCopy_importOf (h : s ≠ t) (l : String) : isCopy s (Node.importOf t l) = false := by
  have hText : t.text ≠ s.text := fun hSame => h (by cases s; cases t; simp_all)
  simp [isCopy, hText]

/-- An import of one type more is not one more of another. -/
theorem Inserts.copies (h : Inserts t p q) (hOther : s ≠ t) : copies s q = copies s p := by
  cases h with
  | before l l' hImports =>
    simp [Imports.copies, hImports, isCopy_importOf hOther, isCopy_withLeading, List.countP_cons]
  | among l hImports => simp [Imports.copies, hImports, isCopy_importOf hOther]
  | first l l' hPackage hImports hTypes =>
    simp [Imports.copies, hImports, isCopy_importOf hOther]

theorem Inserts.length (h : Inserts t p q) : q.imports.length = p.imports.length + 1 := by
  cases h with
  | before l l' hImports => simp [hImports]; omega
  | among l hImports => simp [hImports]; omega
  | first l l' hPackage hImports hTypes => simp [hImports]

/-- Where there are imports, the types stay. -/
theorem Inserts.types (h : Inserts t p q) (hSome : p.imports ≠ []) : q.types = p.types := by
  cases h with
  | before | among => rfl
  | first l l' hPackage hImports hTypes => exact absurd hImports hSome

/-- What the addition of an import leaves: nothing for a second one to do, all imports of other types,
and the types themselves where there were imports. -/
structure Settled (t : TypeName) (p q : UnitParts) : Prop where
  unwanted : ¬ Wanted q t
  copies : ∀ s, s ≠ t → copies s q = copies s p
  length : p.imports.length ≤ q.imports.length
  types : p.imports ≠ [] → q.types = p.types

theorem exists_of_add_import (hp : p.Formed) (t : TypeName) :
    ∃ q : UnitParts, (add p.toUnit t).unit = q.toUnit ∧ q.Formed ∧ p.Reimports q ∧
      Settled t p q := by
  obtain ⟨q, hq, hFormed, hFront⟩ := formed_add hp t
  refine ⟨q, hq, hFormed, hFront, ?_⟩
  by_cases hWanted : Wanted p t
  · obtain rfl := UnitParts.toUnit_inj ((add_of_wanted hWanted).1.symm.trans hq)
    have hAdds := adds_withImport (lineEnd p.toUnit.text) t (types_of_isDenoted hWanted.denoted)
    have hInserts := hAdds.inserts
    exact {
      unwanted := hAdds.not_wanted
      copies := fun s hOther => hInserts.copies hOther
      length := hInserts.length ▸ Nat.le_succ _
      types := hInserts.types }
  · obtain rfl := UnitParts.toUnit_inj ((add_of_unwanted hWanted).1.symm.trans hq)
    exact {
      unwanted := hWanted
      copies := fun _ _ => rfl
      length := le_refl _
      types := fun _ => rfl }

/-- Where imports are left, the types stay. -/
theorem Drops.types {front back : List Node} {imp : Node} (h : Drops imp p front back q)
    (hSome : q.imports ≠ []) : q.types = p.types := by
  cases h with
  | closed | handed => rfl
  | first => exact absurd rfl hSome

/-- What the removal of an import leaves: the unit, if the type is referred to or there is no import of
it, or else one import less, and the types themselves where imports are left. -/
inductive Reduced (t : TypeName) (p : UnitParts) : UnitParts → Prop where
  | kept (h : isReferenced p.toUnit t = true ∨ copies t p = 0) : Reduced t p p
  | fewer {q : UnitParts} (hReferenced : isReferenced p.toUnit t = false)
      (hCopies : copies t p = copies t q + 1) (hLength : p.imports.length = q.imports.length + 1)
      (hTypes : q.imports ≠ [] → q.types = p.types) : Reduced t p q

theorem exists_of_remove_import (hp : p.Formed) (t : TypeName) :
    ∃ q : UnitParts, (remove p.toUnit t).unit = q.toUnit ∧ q.Formed ∧ p.Reimports q ∧
      Reduced t p q := by
  obtain ⟨q, hq, hFormed, hFront⟩ := formed_remove hp t
  refine ⟨q, hq, hFormed, hFront, ?_⟩
  by_cases hKept : isReferenced p.toUnit t = true ∨ copies t p = 0
  · have hSelf := (remove_of_kept (hKept.imp_right copies_eq_zero_iff.mp)).1
    obtain rfl := UnitParts.toUnit_inj (hSelf.symm.trans hq)
    exact .kept hKept
  · obtain ⟨hReferenced, hSome⟩ := not_or.mp hKept
    have hReferenced : isReferenced p.toUnit t = false := by simpa using hReferenced
    obtain ⟨front, imp, back, hImports, hCopies, hImp⟩ := exists_first_copy (copies_ne_zero_iff.mp hSome)
    have hLess := (remove_of_first hReferenced hImports hCopies hImp).1
    obtain rfl := UnitParts.toUnit_inj (hLess.symm.trans hq)
    have hDrops := drops_withoutImport imp front back p
    exact .fewer hReferenced (hDrops.copies hImports hImp) (hDrops.length hImports) hDrops.types

end Imports

namespace Pass

variable {old new : TypeName} {p q : UnitParts} {f : Node → Node}

/-- A change of a type: the types are changed, then an import is removed, then one is added. -/
theorem exists_of_run_changeType (hp : p.Formed) (old new : TypeName) (j : Journal) :
    ∃ mid q : UnitParts, ((changeType old new).run p.toUnit j).1.node = q.toUnit ∧ q.Formed ∧
      (p.mapTypes (onType (.changeType old new))).Reimports mid ∧ mid.Reimports q ∧
      Imports.Reduced old (p.mapTypes (onType (.changeType old new))) mid ∧
      Imports.Settled new mid q := by
  obtain ⟨mid, hMid, hMidFormed, hMidFront, hLess⟩ :=
    Imports.exists_of_remove_import (formed_onType (.changeType old new) hp) old
  obtain ⟨q, hq, hFormed, hFront, hSettled⟩ := Imports.exists_of_add_import hMidFormed new
  refine ⟨mid, q, ?_, hFormed, hMidFront, hFront, hLess, hSettled⟩
  simp only [run, runAdd, runRemove, changeTypes_toUnit hp, hMid, hq]

/-- Types that do not concern the old one stay. -/
theorem mapTypes_untouched (hp : p.Formed) (h : Untouched old p) :
    p.mapTypes (onType (.changeType old new)) = p := by
  refine UnitParts.toUnit_inj ?_
  rw [← changeTypes_toUnit hp, changeTypes_untouched hp h]

/-- A type that nothing concerns is not denoted. -/
theorem not_isDenoted_of_untouched {t : TypeName} (h : Untouched t p) :
    Imports.isDenoted p.toUnit t = false := by
  refine List.any_eq_false.mpr fun m hm => ?_
  obtain ⟨⟨n, hn, hm⟩, hForm⟩ := Node.mem_bodyNames.mp hm
  rw [p.types_toUnit] at hn
  obtain ⟨u, cs, rfl⟩ := Node.exists_name hForm
  have hNot := h n hn _ hm
  simp only [concerns, decide_eq_false_iff_not] at hNot
  simp [Node.denoted?, hNot]

/-- Where there is nothing to change in the types, no import to remove and none to add, the pass gives
the same unit back. -/
theorem run_of_idle (hp : p.Formed) (h : Untouched old p)
    (hKept : Imports.isReferenced p.toUnit old = true ∨ Imports.copies old p = 0)
    (hUnwanted : ¬ Imports.Wanted p new) (j : Journal) :
    ((changeType old new).run p.toUnit j).1 = ⟨p.toUnit, false⟩ := by
  obtain ⟨hRemove, hNotRemoved⟩ :=
    Imports.remove_of_kept (hKept.imp_right Imports.copies_eq_zero_iff.mp)
  obtain ⟨hAdd, hNotAdded⟩ := Imports.add_of_unwanted hUnwanted
  simp only [run, runAdd, runRemove, changeTypes_untouched hp h, hRemove, hNotRemoved, hAdd, hNotAdded]
  rfl

/-- All that a change of a type does to a unit, its imports apart. -/
structure Exchanged (old new : TypeName) (p q : UnitParts) : Prop where
  package : q.package = p.package
  endMarker : q.endMarker = p.endMarker
  /-- Each name and each call in the types becomes what the change makes of it, and nothing else is
  another but the trivia before the first type, where nothing but imports stands before it. -/
  types : ∃ types, List.Forall₂ (Node.Recast (Retyped old new)) p.types types ∧
    Refronts types q.types ∧ (p.package ≠ none → q.types = types)
  /-- No name of the old type is left, and no call of a method declared on it or returning it. -/
  gone : Untouched old q

/-- What a second change of the same type does to a unit `q` that the first made of `p`. -/
structure Repeated (old new : TypeName) (p q : UnitParts) (result : Revised) : Prop where
  /-- At most imports are edited again. -/
  front : ∃ r : UnitParts, result.node = r.toUnit ∧ q.Reimports r ∧
    (r.types = q.types ∨ p.package = none ∧ p.imports.length = 2 ∧ Imports.copies old p = 2 ∧
      Imports.isReferenced q.toUnit old = false)
  /-- The first change is enough if there was at most one import of the old type, or if a name without
  a type is spelled like the old one. -/
  enough : result = ⟨q.toUnit, false⟩ ↔
    Imports.isReferenced q.toUnit old = true ∨ Imports.copies old p ≤ 1

/-- How many imports a first change leaves of the old type, and how many imports at all. -/
theorem copies_of_run {mid : UnitParts} (hOther : old ≠ new) (hAll : (p.mapTypes f).Reimports q)
    (hReduced : Imports.Reduced old (p.mapTypes f) mid) (hSettled : Imports.Settled new mid q)
    (hReferenced : Imports.isReferenced q.toUnit old = false) :
    Imports.copies old q = Imports.copies old p - 1 ∧ p.imports.length ≤ q.imports.length + 1 := by
  have hCopies := hSettled.copies old hOther
  have hLength := hSettled.length
  have hSame : Imports.copies old (p.mapTypes f) = Imports.copies old p := rfl
  have hImports : (p.mapTypes f).imports = p.imports := rfl
  rw [Imports.isReferenced_of_reimports hAll] at hReferenced
  cases hReduced with
  | kept hKept =>
    have hNone := hKept.resolve_left (by simp [hReferenced])
    rw [hImports] at hLength
    omega
  | fewer _ hFewer hShorter _ =>
    rw [hImports] at hShorter
    omega

theorem repeated_of_copies (hq : q.Formed) (hOther : old ≠ new) (hGone : Untouched old q)
    (hUnwanted : ¬ Imports.Wanted q new) (hPackage : q.package = p.package)
    (hLeft : Imports.isReferenced q.toUnit old = false →
      Imports.copies old q = Imports.copies old p - 1 ∧ p.imports.length ≤ q.imports.length + 1)
    (j : Journal) : Repeated old new p q ((changeType old new).run q.toUnit j).1 := by
  by_cases hKept : Imports.isReferenced q.toUnit old = true ∨ Imports.copies old q = 0
  · rw [run_of_idle hq hGone hKept hUnwanted j]
    refine ⟨⟨q, rfl, .refl q, Or.inl rfl⟩, iff_of_true rfl ?_⟩
    by_cases hReferenced : Imports.isReferenced q.toUnit old = true
    · exact Or.inl hReferenced
    · have hCopies := (hLeft (by simpa using hReferenced)).1
      have hNone := hKept.resolve_left hReferenced
      exact Or.inr (by omega)
  · obtain ⟨mid, r, hr, -, hMid, hFront, hReduced, hSettled⟩ := exists_of_run_changeType hq old new j
    rw [mapTypes_untouched hq hGone] at hMid hReduced
    have hAll := hMid.trans hFront
    cases hReduced with
    | kept h => exact absurd h hKept
    | fewer hReferenced hFewer hShorter hTypes =>
      obtain ⟨hCopies, hLength⟩ := hLeft hReferenced
      refine ⟨⟨r, hr, hAll, ?_⟩, iff_of_false (fun hSame => ?_) ?_⟩
      · by_cases hImports : mid.imports = []
        · -- the only import that was left was one of the old type
          have hOne : q.imports.length = 1 := by rw [hShorter, hImports]; rfl
          have hAtMost : Imports.copies old q ≤ q.imports.length := List.countP_le_length
          have hAtMost' : Imports.copies old p ≤ p.imports.length := List.countP_le_length
          by_cases hPart : p.package = none
          · exact Or.inr ⟨hPart, by omega, by omega, hReferenced⟩
          · exact Or.inl (hAll.kept (hPackage ▸ hPart))
        · exact Or.inl ((hSettled.types hImports).trans (hTypes hImports))
      · rw [hSame] at hr
        obtain rfl := UnitParts.toUnit_inj hr
        rw [hSettled.copies old hOther] at hFewer
        omega
      · simp only [hReferenced, Bool.false_eq_true, false_or]
        omega

/-- A change of a type changes the names and calls that concern it and nothing else in the types, does
nothing where there is nothing to do, and leaves at most imports to itself to do again. -/
theorem retypes_exactly {unit : Node} (hFine : unit.WellFormed) (hForm : unit.form = .unit)
    (hOther : old ≠ new) (j : Journal) :
    ∃ q : UnitParts, ((changeType old new).run unit j).1.node = q.toUnit ∧
      Exchanged old new unit.unitParts q ∧
      (Untouched old unit.unitParts → Untouched new unit.unitParts →
        (∀ i ∈ unit.unitParts.imports, Imports.isCopy old i = false) →
        ((changeType old new).run unit j).1 = ⟨unit, false⟩) ∧
      ∀ j' : Journal, Repeated old new unit.unitParts q ((changeType old new).run q.toUnit j').1 := by
  obtain ⟨cs, rfl⟩ := Node.exists_children (k := .unit) rfl hForm
  have hp := UnitParts.formed_of_wellFormed hFine
  have hUnit := hFine.toUnit_unitParts
  generalize (Node.branch .unit cs).unitParts = p at hp hUnit
  rw [← hUnit]
  obtain ⟨mid, q, hq, hqFormed, hMid, hFront, hReduced, hSettled⟩ :=
    exists_of_run_changeType hp old new j
  have hAll := hMid.trans hFront
  have hGone : Untouched old q := (untouched_onType hp hOther).reimports hAll
  refine ⟨q, hq, ⟨hAll.package, hAll.endMarker, ?_, hGone⟩, fun hOld hNew hNone => ?_, fun j' => ?_⟩
  · refine ⟨_, ?_, hAll.types, hAll.kept⟩
    exact List.forall₂_map_right_iff.mpr
      (List.forall₂_same.mpr fun n hn => recast_onType (hp.types n hn).2)
  · refine run_of_idle hp hOld (Or.inr (Imports.copies_eq_zero_iff.mpr hNone)) (fun hWanted => ?_) j
    have hDenoted := hWanted.denoted
    rw [not_isDenoted_of_untouched hNew] at hDenoted
    cases hDenoted
  · exact repeated_of_copies (p := p) hqFormed hOther hGone hSettled.unwanted hAll.package
      (copies_of_run hOther hAll hReduced hSettled) j'

open Draft in
/-- Names of a type, one of them in full, and a call of one of its methods. -/
def layouts : Sample := .ofDraft (node "program" [packageOf ["p"],
  importing ["Layout", "log4j", "apache", "org"] "\n\n",
  classOf "A" (dottedType " " ["Layout", "log4j", "apache", "org"]) (braced "class_body" [
    methodOf voidType "f" [parameterOf (typeWord "Layout") "b"] (braced "block" [
      asStatement (callOn (word "b" " ") "format" [word "c"])])]) "\n\n"]) "\n"

/-- The text with the other type. -/
def layoutBases : String :=
  "package p;\n\nimport ch.qos.logback.core.LayoutBase;\n\n" ++
    "class A extends ch.qos.logback.core.LayoutBase \x7b " ++
    "void f(LayoutBase b) \x7b b.format(c); \x7d \x7d\n"

set_option maxRecDepth 100000 in
theorem retypes_exactly_layouts : ∃ (unit : Node) (q : UnitParts),
    layouts.resolved? ⟨defaultStubs⟩ = some unit ∧ unit.WellFormed ∧ unit.form = .unit ∧
      Appender.legacyLayout ≠ Appender.layout ∧
      ((changeType Appender.legacyLayout Appender.layout).run unit {}).1.node = q.toUnit ∧
      q.toUnit.text = layoutBases ∧ Exchanged Appender.legacyLayout Appender.layout unit.unitParts q ∧
      ((changeType Appender.legacyLayout Appender.layout).run q.toUnit {}).1 = ⟨q.toUnit, false⟩ := by
  have hOther : Appender.legacyLayout ≠ Appender.layout := by decide
  have hSome : ((layouts.resolved? ⟨defaultStubs⟩).map fun unit =>
      (((changeType Appender.legacyLayout Appender.layout).run unit {}).1.node.text,
        Imports.copies Appender.legacyLayout unit.unitParts)) = some (layoutBases, 1) := by
    decide +kernel
  obtain ⟨unit, hUnit, hSome⟩ := Option.map_eq_some_iff.mp hSome
  obtain ⟨hText, hOne⟩ := Prod.mk.inj hSome
  obtain ⟨hFine, hForm⟩ := Sample.wellFormed_of_resolved (by decide +kernel) hUnit
  obtain ⟨q, hq, hExchanged, -, hRepeated⟩ := retypes_exactly hFine hForm hOther {}
  exact ⟨unit, q, hUnit, hFine, hForm, hOther, hq, hq ▸ hText, hExchanged,
    (hRepeated {}).enough.mpr (Or.inr (le_of_eq hOne))⟩

open Draft in
/-- Two imports of a type and a name of it. -/
def namedTwice : Sample := .ofDraft (node "program" [
  importing ["B", "a"], importing ["B", "a"] "\n",
  classOf "A" none (braced "class_body" [fieldOf (typeWord "B" " ") "b"]) "\n"]) "\n"

set_option maxRecDepth 100000 in
/-- Of two imports of the old type the second is left by the first change. It goes with the second one,
and then the import of the new type comes to stand before the first type and moves it. -/
theorem type_moved : ∃ unit first, namedTwice.resolved? ⟨defaultStubs⟩ = some unit ∧
    ((changeType ⟨"a.B"⟩ ⟨"c.B"⟩).run unit {}).1.node = first ∧
    ((changeType ⟨"a.B"⟩ ⟨"c.B"⟩).run first {}).1.node.field .types ≠ first.field .types := by
  have hSome : ((namedTwice.resolved? ⟨defaultStubs⟩).map fun unit =>
      let first := ((changeType ⟨"a.B"⟩ ⟨"c.B"⟩).run unit {}).1.node
      ((first.field .types).map Node.leading,
        (((changeType ⟨"a.B"⟩ ⟨"c.B"⟩).run first {}).1.node.field .types).map Node.leading)) =
      some (["\n"], ["\n\n"]) := by
    decide +kernel
  obtain ⟨unit, hUnit, hSome⟩ := Option.map_eq_some_iff.mp hSome
  obtain ⟨hFirst, hSecond⟩ := Prod.mk.inj hSome
  refine ⟨unit, _, hUnit, rfl, fun hSame => ?_⟩
  rw [hSame, hFirst] at hSecond
  simp at hSecond

end Pass

end SourceMigration
