import SourceMigration.Typing.Scope

/-!
# SourceMigration — climbing to the nearest declaration

A member is looked for from a type upwards, first through the classes of the unit and then, from the type
that the way out of the unit leads to, through the known types. Supertypes may form cycles in either part,
and across both, so each way ends before a type that it met before. `Ascends` says what such a way is,
without fuel: a way that ends has a derivation, and there is only one. The types not yet met tell how much
of it is left, and the lookups have fuel for all of them.

## Results

* `Classpath.ascends_supertypes` — the ancestors of a known type are the types on the way up from it.
* `Scope.exists_ascends`         — the way up through a unit ends.
* `Scope.climb_eq`               — a lookup asks the classes on the way, and then the type behind them.
* `lookups_nearest`              — every lookup finds the entry of the first type that has one.
-/

namespace SourceMigration

-- ---------------------------------------------------------------------------
-- Types not yet met
-- ---------------------------------------------------------------------------

/-- How many of some types were not met yet. -/
def unmet (types seen : List TypeName) : Nat := (types.filter fun t => t ∉ seen).length

theorem unmet_le (types seen : List TypeName) : unmet types seen ≤ types.length := List.length_filter_le _ _

/-- A type that is met for the first time is one less to be met. -/
theorem unmet_cons_lt {types seen : List TypeName} {t : TypeName} (ht : t ∈ types) (hNew : t ∉ seen) :
    unmet types (t :: seen) < unmet types seen := by
  have hSplit : (types.filter fun u => u ∉ t :: seen) = (types.filter fun u => u ∉ seen).filter (· ≠ t) := by
    rw [List.filter_filter]
    refine List.filter_congr fun u _ => ?_
    simp
  have hMem : t ∈ types.filter fun u => u ∉ seen := by simpa using ⟨ht, hNew⟩
  rw [unmet, unmet, hSplit]
  exact List.length_filter_lt_length_iff_exists.mpr ⟨t, hMem, by simp⟩

-- ---------------------------------------------------------------------------
-- Nearest declarations
-- ---------------------------------------------------------------------------

/-- A type with the members that it declares, of which the first of a name counts. -/
structure Declarer where
  name : TypeName
  fields : List (String × TypeName)
  methods : List (String × Option TypeName)

/-- What was found is made of the entry for a member in the first type on a chain that has one. -/
structure Nearest {α β : Type} (table : Declarer → List (String × α)) (entry : Declarer → α → β)
    (chain : List Declarer) (member : String) (found : Option β) : Prop where
  eq_some_iff (b : β) : found = some b ↔
    ∃ before d after a, chain = before ++ d :: after ∧ (∀ e ∈ before, member ∉ (table e).map Prod.fst) ∧
      (table d).lookup member = some a ∧ entry d a = b
  eq_none_iff : found = none ↔ ∀ d ∈ chain, member ∉ (table d).map Prod.fst

theorem lookup_eq_none_iff_notMem {κ α : Type} [DecidableEq κ] {entries : List (κ × α)} {key : κ} :
    entries.lookup key = none ↔ key ∉ entries.map Prod.fst := by
  rw [List.lookup_eq_none_iff, List.mem_map]
  refine ⟨fun h ⟨e, he, hEq⟩ => ?_, fun h e he => bne_iff_ne.mpr fun hEq => h ⟨e, he, hEq.symm⟩⟩
  exact bne_iff_ne.mp (h e he) hEq.symm

/-- Asking the types on a chain in turn finds the nearest declaration. -/
theorem nearest_findSome {α β : Type} (table : Declarer → List (String × α)) (entry : Declarer → α → β)
    (chain : List Declarer) (member : String) :
    Nearest table entry chain member
      (chain.findSome? fun d => ((table d).lookup member).map (entry d)) where
  eq_some_iff b := by
    rw [List.findSome?_eq_some_iff]
    simp only [Option.map_eq_none_iff, lookup_eq_none_iff_notMem, Option.map_eq_some_iff]
    constructor
    · rintro ⟨before, d, after, hChain, ⟨a, ha, hb⟩, hNone⟩
      exact ⟨before, d, after, a, hChain, hNone, ha, hb⟩
    · rintro ⟨before, d, after, a, hChain, hNone, ha, hb⟩
      exact ⟨before, d, after, hChain, ⟨a, ha, hb⟩, hNone⟩
  eq_none_iff := by
    simp only [List.findSome?_eq_none_iff, Option.map_eq_none_iff, lookup_eq_none_iff_notMem]

-- ---------------------------------------------------------------------------
-- Known types
-- ---------------------------------------------------------------------------

namespace Classpath

/-- The way up from a type, after the types that were seen: it ends above a type without a known supertype,
and before a type that was seen. -/
inductive Ascends (c : Classpath) : List TypeName → Option TypeName → List TypeName → Prop where
  | above {seen : List TypeName} : Ascends c seen none []
  | closed {seen : List TypeName} {t : TypeName} (h : t ∈ seen) : Ascends c seen (some t) []
  | step {seen ts : List TypeName} {t : TypeName} (hNew : t ∉ seen)
      (h : Ascends c (t :: seen) (c.supertype? t) ts) : Ascends c seen (some t) (t :: ts)

/-- What is known to be declared by a type; nothing, if the type is not known. -/
def declarer (c : Classpath) (t : TypeName) : Declarer :=
  match c.stub? t with
  | some s => ⟨t, s.fields, s.methods⟩
  | none => ⟨t, [], []⟩

variable {c : Classpath} {seen ts us : List TypeName} {t u : TypeName} {up : Option TypeName}

/-- There is one way up. -/
theorem Ascends.unique (h : c.Ascends seen up ts) (h' : c.Ascends seen up us) : us = ts := by
  induction h generalizing us with
  | above => cases h'; rfl
  | closed hSeen =>
    cases h' with
    | closed => rfl
    | step hNew => exact absurd hSeen hNew
  | step hNew _ ih =>
    cases h' with
    | closed hSeen => exact absurd hSeen hNew
    | step _ h' => rw [ih h']

theorem mem_names_of_supertype (h : c.supertype? t = some u) : t ∈ c.stubs.map Stub.name := by
  obtain ⟨s, hs, -⟩ := Option.bind_eq_some_iff.mp h
  have hName : s.name = t := by simpa using List.find?_some hs
  exact hName ▸ List.mem_map_of_mem (List.mem_of_find?_eq_some hs)

/-- With fuel for the types not yet met, climbing goes the whole way up. -/
theorem ascends_climb {fuel : Nat} (hFuel : unmet (c.stubs.map Stub.name) seen < fuel) :
    c.Ascends seen (some t) (c.climb fuel seen t) := by
  induction fuel generalizing seen t with
  | zero => cases hFuel
  | succ fuel ih =>
    unfold climb
    split
    · exact .closed (by simpa using ‹seen.contains t = true›)
    · rename_i hNew
      have hNew : t ∉ seen := by simpa using hNew
      refine .step hNew ?_
      cases hUp : c.supertype? t with
      | none => exact .above
      | some u =>
        have hLess := unmet_cons_lt (mem_names_of_supertype hUp) hNew
        exact ih (by omega)

/-- The ancestors of a type are the types on the way up from it. -/
theorem ascends_supertypes (c : Classpath) (t : TypeName) : c.Ascends [] (some t) (c.supertypes t) := by
  refine ascends_climb ?_
  have hLe := unmet_le (c.stubs.map Stub.name) []
  rw [List.length_map] at hLe
  omega

/-- A type is the first of its ancestors. -/
theorem exists_supertypes (c : Classpath) (t : TypeName) : ∃ ts, c.supertypes t = t :: ts := by
  have h := c.ascends_supertypes t
  generalize c.supertypes t = ts at h
  cases h with
  | closed hSeen => cases hSeen
  | step => exact ⟨_, rfl⟩

theorem fieldType_eq (c : Classpath) (t : TypeName) (field : String) :
    c.fieldType? t field =
      ((c.supertypes t).map c.declarer).findSome? fun d => (d.fields.lookup field).map id := by
  rw [fieldType?, List.findSome?_map]
  congr 1
  funext u
  simp only [Function.comp_apply, declarer]
  cases c.stub? u <;> simp

theorem method_eq (c : Classpath) (t : TypeName) (method : String) :
    c.method? t method =
      ((c.supertypes t).map c.declarer).findSome? fun d =>
      (d.methods.lookup method).map (Prod.mk d.name) := by
  rw [method?, List.findSome?_map]
  congr 1
  funext u
  simp only [Function.comp_apply, declarer]
  cases c.stub? u <;> rfl

end Classpath

-- ---------------------------------------------------------------------------
-- Classes of a unit
-- ---------------------------------------------------------------------------

/-- What a class of a unit declares. -/
def ClassInfo.declarer (t : TypeName) (info : ClassInfo) : Declarer :=
  ⟨t, info.fields.reverse, info.methods.reverse⟩

namespace Scope

/-- The way up from a type through the classes of a unit, after the classes that were seen, and the type that
it leads to: one that is no class of the unit, or one that was seen. -/
inductive Ascends (s : Scope) :
    List TypeName → Option TypeName → List (TypeName × ClassInfo) → Option TypeName → Prop where
  | above {seen : List TypeName} : Ascends s seen none [] none
  | left {seen : List TypeName} {t : TypeName} (h : s.class? t = none) : Ascends s seen (some t) [] (some t)
  | closed {seen : List TypeName} {t : TypeName} (h : t ∈ seen) : Ascends s seen (some t) [] (some t)
  | step {seen : List TypeName} {t : TypeName} {info : ClassInfo} {cs : List (TypeName × ClassInfo)}
      {way : Option TypeName} (hNew : t ∉ seen) (hClass : s.class? t = some info)
      (h : Ascends s (t :: seen) info.extends? cs way) : Ascends s seen (some t) ((t, info) :: cs) way

/-- The types on a way up: classes of the unit, and the type behind them with its ancestors. -/
def chain (s : Scope) (classes : List (TypeName × ClassInfo)) (way : Option TypeName) : List Declarer :=
  classes.map (fun c => c.2.declarer c.1) ++
    (way.toList.flatMap s.classpath.supertypes).map s.classpath.declarer

variable {s : Scope} {seen : List TypeName} {t : TypeName} {up way way' : Option TypeName}
  {cs ds : List (TypeName × ClassInfo)} {info : ClassInfo}

/-- There is one way up. -/
theorem Ascends.unique (h : s.Ascends seen up cs way) (h' : s.Ascends seen up ds way') :
    ds = cs ∧ way' = way := by
  induction h generalizing ds way' with
  | above => cases h'; exact ⟨rfl, rfl⟩
  | left hNone =>
    cases h' with
    | left | closed => exact ⟨rfl, rfl⟩
    | step _ hClass => rw [hNone] at hClass; cases hClass
  | closed hSeen =>
    cases h' with
    | left | closed => exact ⟨rfl, rfl⟩
    | step hNew => exact absurd hSeen hNew
  | step hNew hClass _ ih =>
    cases h' with
    | left hNone => rw [hNone] at hClass; cases hClass
    | closed hSeen => exact absurd hSeen hNew
    | step _ hClass' h' =>
      obtain rfl := Option.some.inj (hClass.symm.trans hClass')
      obtain ⟨rfl, rfl⟩ := ih h'
      exact ⟨rfl, rfl⟩

/-- No class on the way up was met before. -/
theorem Ascends.nodup (h : s.Ascends seen up cs way) :
    (cs.map Prod.fst).Nodup ∧ ∀ t ∈ cs.map Prod.fst, t ∉ seen := by
  induction h with
  | above | left | closed => simp
  | step hNew _ _ ih =>
    obtain ⟨hNodup, hUnseen⟩ := ih
    rw [List.map_cons, List.nodup_cons]
    refine ⟨⟨fun hMem => hUnseen _ hMem List.mem_cons_self, hNodup⟩, List.forall_mem_cons.mpr ⟨hNew, ?_⟩⟩
    exact fun u hu hSeen => hUnseen u hu (List.mem_cons_of_mem _ hSeen)

theorem mem_names_of_class (h : s.class? t = some info) : t ∈ s.classes.map Prod.fst := by
  refine Decidable.of_not_not fun hNot => ?_
  have hNone : s.class? t = none := by
    rw [class?, lookup_eq_none_iff_notMem, List.map_reverse, List.mem_reverse]
    exact hNot
  rw [h] at hNone
  cases hNone

/-- The way up through a unit ends. -/
theorem exists_ascends (s : Scope) (seen : List TypeName) (up : Option TypeName) :
    ∃ cs way, s.Ascends seen up cs way := by
  induction hLeft : unmet (s.classes.map Prod.fst) seen using Nat.strongRecOn generalizing seen up with
  | _ left ih =>
    cases up with
    | none => exact ⟨[], none, .above⟩
    | some t =>
      by_cases hSeen : t ∈ seen
      · exact ⟨[], some t, .closed hSeen⟩
      · cases hClass : s.class? t with
        | none => exact ⟨[], some t, .left hClass⟩
        | some info =>
          have hLess := unmet_cons_lt (mem_names_of_class hClass) hSeen
          obtain ⟨cs, way, h⟩ := ih _ (hLeft ▸ hLess) (t :: seen) info.extends? rfl
          exact ⟨(t, info) :: cs, way, .step hSeen hClass h⟩

/-- With fuel for the classes not yet met, a lookup asks the classes on the way up, and then the type that
the way leads to. -/
theorem climb_eq {α : Type} {inUnit : TypeName → ClassInfo → Option α} {beyond : TypeName → Option α}
    {fuel : Nat} (h : s.Ascends seen (some t) cs way)
    (hFuel : unmet (s.classes.map Prod.fst) seen < fuel) :
    s.climb inUnit beyond fuel seen t = (cs.findSome? fun c => inUnit c.1 c.2).or (way.bind beyond) := by
  induction fuel generalizing seen t cs with
  | zero => cases hFuel
  | succ fuel ih =>
    unfold climb
    cases h with
    | left hNone => simp [hNone]
    | closed hSeen => simp [hSeen]
    | @step _ _ info cs _ hNew hClass h =>
      rw [if_neg (by simpa using hNew), hClass]
      simp only [List.findSome?_cons]
      cases inUnit t info with
      | some a => rfl
      | none =>
        have hLess := unmet_cons_lt (mem_names_of_class hClass) hNew
        cases hUp : info.extends? with
        | none =>
          rw [hUp] at h
          cases h
          rfl
        | some u =>
          rw [hUp] at h
          exact ih h (by omega)

/-- Every lookup has that fuel. -/
theorem climb_whole {α : Type} (inUnit : TypeName → ClassInfo → Option α) (beyond : TypeName → Option α)
    (h : s.Ascends [] (some t) cs way) :
    s.climb inUnit beyond (s.classes.length + 1) [] t =
      (cs.findSome? fun c => inUnit c.1 c.2).or (way.bind beyond) := by
  refine climb_eq h ?_
  have hLe := unmet_le (s.classes.map Prod.fst) []
  rw [List.length_map] at hLe
  omega

theorem fieldType_eq (h : s.Ascends [] (some t) cs way) (field : String) :
    s.fieldType? t field = (s.chain cs way).findSome? fun d => (d.fields.lookup field).map id := by
  rw [fieldType?, climb_whole _ _ h, chain, List.findSome?_append, List.findSome?_map]
  congr 1
  · congr 1
    funext c
    simp [Variables.typeOf?, ClassInfo.declarer]
  · cases way with
    | none => rfl
    | some u => simp [Classpath.fieldType_eq]

theorem method_eq (h : s.Ascends [] (some t) cs way) (method : String) :
    s.method? t method =
      (s.chain cs way).findSome? fun d => (d.methods.lookup method).map (Prod.mk d.name) := by
  rw [method?, climb_whole _ _ h, chain, List.findSome?_append, List.findSome?_map]
  congr 1
  cases way with
  | none => rfl
  | some u => simp [Classpath.method_eq]

end Scope

/-- Every lookup ends and finds the entry of the nearest type. The ancestors of a known type are those on the
one way up from it, all different, the type itself first; and a member of a known type is the entry of the
first of them that has one. From a type of a unit, there is one way up through the classes of the unit, which
are all different, to a type that is none of them or was met before; and a member is the entry of the first
of these classes, or else of the first ancestor of the type they lead to, that has one. Nothing is found where
none of them has one. -/
theorem lookups_nearest :
    (∀ (c : Classpath) (t : TypeName),
      (∀ ts, c.Ascends [] (some t) ts ↔ ts = c.supertypes t) ∧
      (c.supertypes t).Nodup ∧ (c.supertypes t).head? = some t ∧
      ∀ member,
        Nearest Declarer.fields (fun _ => id) ((c.supertypes t).map c.declarer) member
          (c.fieldType? t member) ∧
        Nearest Declarer.methods (fun d => Prod.mk d.name) ((c.supertypes t).map c.declarer) member
          (c.method? t member)) ∧
    ∀ (s : Scope) (t : TypeName), ∃ classes way,
      (∀ cs w, s.Ascends [] (some t) cs w ↔ cs = classes ∧ w = way) ∧
      (classes.map Prod.fst).Nodup ∧
      ∀ member,
        Nearest Declarer.fields (fun _ => id) (s.chain classes way) member (s.fieldType? t member) ∧
        Nearest Declarer.methods (fun d => Prod.mk d.name) (s.chain classes way) member
          (s.method? t member) := by
  refine ⟨fun c t => ?_, fun s t => ?_⟩
  · have hUp := c.ascends_supertypes t
    obtain ⟨ts, hFirst⟩ := c.exists_supertypes t
    refine ⟨fun us => ⟨hUp.unique, fun h => h ▸ hUp⟩, c.climb_nodup _ _ _, by rw [hFirst]; rfl,
      fun member => ⟨?_, ?_⟩⟩
    · rw [c.fieldType_eq]
      exact nearest_findSome _ _ _ _
    · rw [c.method_eq]
      exact nearest_findSome _ _ _ _
  · obtain ⟨classes, way, hUp⟩ := s.exists_ascends [] (some t)
    refine ⟨classes, way, fun cs w => ⟨hUp.unique, fun ⟨hcs, hw⟩ => hcs ▸ hw ▸ hUp⟩, hUp.nodup.1,
      fun member => ⟨?_, ?_⟩⟩
    · rw [Scope.fieldType_eq hUp]
      exact nearest_findSome _ _ _ _
    · rw [Scope.method_eq hUp]
      exact nearest_findSome _ _ _ _

end SourceMigration
