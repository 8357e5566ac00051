import SourceMigration.Proofs.Typing.Attached

/-!
# SourceMigration — a larger classpath

What a name means depends on the classpath only through the types that its lookup asks for. The
answer stays when more types are known, unless one of these had been asked for in vain before the
answer was found: a type of the unit's own package, say, takes the place of one that an import on
demand gave. So the types missed on the way are all that stands between a smaller classpath and
the same meanings under a larger one.

## Results

* `Widens.resolveParts` — the meaning of a name stays unless a type that was missed is known.
* `keeps_meaning`       — the same for the names of a unit, divided or not.
-/

namespace SourceMigration

/-- The first element that passes stays the first, if none before it passes a weaker test. -/
theorem find?_of_takeWhile {α : Type} {p q : α → Bool} {l : List α}
    (hWeaker : ∀ a, p a = true → q a = true)
    (hMissed : ∀ a ∈ l.takeWhile (!p ·), q a = false) : l.find? q = l.find? p := by
  induction l with
  | nil => rfl
  | cons a l ih =>
    cases hp : p a with
    | true => rw [List.find?_cons_of_pos (hWeaker a hp), List.find?_cons_of_pos hp]
    | false =>
      rw [List.takeWhile_cons_of_pos (by simp [hp])] at hMissed
      have hq : q a = false := hMissed a List.mem_cons_self
      rw [List.find?_cons_of_neg (by simp [hq]), List.find?_cons_of_neg (by simp [hp])]
      exact ih fun b hb => hMissed b (List.mem_cons_of_mem _ hb)

namespace Scope

-- ---------------------------------------------------------------------------
-- What a lookup asks for
-- ---------------------------------------------------------------------------

/-- The types that are asked for, in order, where neither the unit nor an import tells what a simple
name means. -/
def candidates (s : Scope) (name : String) : List TypeName :=
  (TypeName.member s.package name :: s.wildcards.map (fun p => ⟨p ++ "." ++ name⟩)) ++
    [TypeName.member languagePackage name]

theorem resolveSimple_eq (s : Scope) (name : String) :
    s.resolveSimple name = ((s.declared.lookup name <|> s.explicit.lookup name) <|>
      (s.candidates name).find? s.classpath.knows) := by
  unfold resolveSimple
  cases s.declared.lookup name <;> rfl

/-- The types that the lookup of a simple name asks for in vain. -/
def missedSimple (s : Scope) (name : String) : List TypeName :=
  if (s.declared.lookup name <|> s.explicit.lookup name).isSome then []
  else (s.candidates name).takeWhile (!s.classpath.knows ·)

/-- The types that the lookup of a name asks for in vain. The full name is asked for first; where it
is the answer in the end, for it looks like one, it was not missed. -/
def missed (s : Scope) (parts : List String) : List TypeName :=
  match parts with
  | [] => []
  | [name] => s.missedSimple name
  | head :: rest =>
    let full : TypeName := ⟨Text.joinDots parts⟩
    if s.knows full then []
    else
      let inner := (s.resolveSimple head).map fun t => TypeName.mk (Text.joinDots (t.text :: rest))
      (if (inner.filter s.knows).isNone && looksQualified parts then [] else [full]) ++
        s.missedSimple head ++ (inner.filter (!s.knows ·)).toList

/-- A scope that differs in its classpath only, which knows more. -/
structure Widens (s s' : Scope) : Prop where
  package : s'.package = s.package
  declared : s'.declared = s.declared
  explicit : s'.explicit = s.explicit
  wildcards : s'.wildcards = s.wildcards
  classes : s'.classes.map Prod.fst = s.classes.map Prod.fst
  more : ∀ t, s.classpath.knows t = true → s'.classpath.knows t = true

namespace Widens

variable {s s' : Scope} (h : Widens s s')

include h

/-- What exists in the smaller scope exists in the larger one. -/
theorem knows {t : TypeName} (hKnows : s.knows t = true) : s'.knows t = true := by
  have hClasses : s'.classes.any (·.1 == t) = s.classes.any (·.1 == t) := by
    have hMap (cs : List (TypeName × ClassInfo)) :
        cs.any (·.1 == t) = (cs.map Prod.fst).any (· == t) := by simp [Function.comp_def]
    rw [hMap, hMap, h.classes]
  rw [Scope.knows, Bool.or_eq_true] at hKnows ⊢
  exact hKnows.imp (hClasses.trans ·) (h.more t)

/-- A type that only the classpath could tell of is unknown if it is unknown there. -/
theorem knows_eq_false {t : TypeName} (hNot : s.knows t = false)
    (hNew : s'.classpath.knows t = false) : s'.knows t = false := by
  have hMap (cs : List (TypeName × ClassInfo)) :
      cs.any (·.1 == t) = (cs.map Prod.fst).any (· == t) := by simp [Function.comp_def]
  rw [Scope.knows, Bool.or_eq_false_iff] at hNot ⊢
  exact ⟨by rw [hMap, h.classes, ← hMap]; exact hNot.1, hNew⟩

/-- The meaning of a simple name stays, unless a type that was missed is known. -/
theorem resolveSimple {name : String}
    (hMissed : ∀ u ∈ s.missedSimple name, s'.classpath.knows u = false) :
    s'.resolveSimple name = s.resolveSimple name := by
  have hCandidates : s'.candidates name = s.candidates name := by
    unfold candidates
    rw [h.package, h.wildcards]
  rw [resolveSimple_eq, resolveSimple_eq, h.declared, h.explicit, hCandidates]
  unfold missedSimple at hMissed
  cases hTables : s.declared.lookup name <|> s.explicit.lookup name with
  | some t => rfl
  | none =>
    rw [hTables, if_neg (by simp)] at hMissed
    rw [find?_of_takeWhile h.more hMissed]

/-- The meaning of a name stays, unless a type that was missed is known. -/
theorem resolveParts {parts : List String}
    (hMissed : ∀ u ∈ s.missed parts, s'.classpath.knows u = false) :
    s'.resolveParts parts = s.resolveParts parts := by
  match parts with
  | [] => rfl
  | [name] => exact h.resolveSimple hMissed
  | head :: next :: rest =>
    unfold Scope.resolveParts
    unfold missed at hMissed
    simp only at hMissed ⊢
    cases hFull : s.knows ⟨Text.joinDots (head :: next :: rest)⟩ with
    | true => rw [h.knows hFull, if_pos rfl, if_pos rfl]
    | false =>
      simp only [hFull, Bool.false_eq_true, if_false, List.mem_append] at hMissed ⊢
      have hHead : s'.resolveSimple head = s.resolveSimple head :=
        h.resolveSimple fun u hu => hMissed u (Or.inl (Or.inr hu))
      rw [hHead]
      generalize (s.resolveSimple head).map _ = inner at hMissed ⊢
      have hInner : inner.filter s'.knows = inner.filter s.knows := by
        cases inner with
        | none => rfl
        | some t =>
          cases hKnows : s.knows t with
          | true => simp [Option.filter, hKnows, h.knows hKnows]
          | false =>
            have hNew := hMissed t (Or.inr (by simp [Option.filter, hKnows]))
            simp [Option.filter, hKnows, h.knows_eq_false hKnows hNew]
      rw [hInner]
      by_cases hLast : (inner.filter s.knows).isNone && looksQualified (head :: next :: rest)
      · -- the full name is the answer whether it is known or not
        obtain ⟨hNone, hLooks⟩ := Bool.and_eq_true_iff.mp hLast
        rw [Option.isNone_iff_eq_none.mp hNone]
        simp [hLooks]
      · have hNew := hMissed ⟨Text.joinDots (head :: next :: rest)⟩
          (Or.inl (Or.inl (by rw [if_neg hLast]; exact List.mem_singleton_self _)))
        simp [h.knows_eq_false hFull hNew]

end Widens

/-- The tables of a unit do not depend on the classpath. -/
theorem widens_ofUnit (unit : Node) {c c' : Classpath}
    (h : ∀ t, c.knows t = true → c'.knows t = true) : Widens (ofUnit unit c) (ofUnit unit c') where
  package := rfl
  declared := rfl
  explicit := rfl
  wildcards := rfl
  classes := by simp [ofUnit, Function.comp_def]
  more := h

end Scope

/-- More stubs, more known types. -/
theorem Classpath.knows_of_subset {c c' : Classpath} (h : c.stubs ⊆ c'.stubs) {t : TypeName}
    (hKnows : c.knows t = true) : c'.knows t = true := by
  simp only [Classpath.knows, Classpath.stub?, List.find?_isSome] at hKnows ⊢
  obtain ⟨stub, hStub, hName⟩ := hKnows
  exact ⟨stub, h hStub, hName⟩

namespace Attribution

variable {s s' : Scope}

-- ---------------------------------------------------------------------------
-- Names with meanings
-- ---------------------------------------------------------------------------

/-- A name with a meaning, made of some tokens. -/
def IsTyped (n : Node) : Prop := ∃ t ts, n = Node.nameOf (some t) ts

/-- No type that was missed on the way from a whole name to its part is known. -/
def Unmissed (s : Scope) (c : Classpath) (part whole : Node) : Prop :=
  ∀ parts, part.nameParts <+: parts → parts <+: whole.nameParts →
    ∀ u ∈ s.missed parts, c.knows u = false

/-- A name with a meaning comes of one of some names, and is among the nodes `after` unless a type
that was missed is known. -/
def Kept (s : Scope) (c : Classpath) (names after : List Node) (n : Node) : Prop :=
  ∃ o ∈ names, o.form = .name ∧ n.tokens <+: o.tokens ∧ (Unmissed s c n o → n ∈ after)

theorem Kept.mono {c : Classpath} {names names' after after' : List Node} {n : Node}
    (h : Kept s c names after n) (hNames : names ⊆ names') (hAfter : after ⊆ after') :
    Kept s c names' after' n := by
  obtain ⟨o, ho, hForm, hTokens, hKept⟩ := h
  exact ⟨o, hNames ho, hForm, hTokens, fun hUnmissed => hAfter (hKept hUnmissed)⟩

/-- What is bare has no name with a meaning. -/
theorem not_typed_of_bare {n m : Node} (h : n.Bare) (hm : m ∈ n.walk) : ¬ IsTyped m := by
  rintro ⟨t, ts, rfl⟩
  cases h.walk _ hm with
  | branch hKind _ => cases hKind

/-- What becomes of a name by attaching. -/
theorem eq_of_resolved_name {ts : List Token} {m : Node} (h : Resolved s (Node.nameOf none ts) m) :
    m = Node.nameOf (s.resolve (Node.nameOf none ts)) ts := by
  cases h with
  | name => rfl
  | branch hk => simp [NodeKind.form] at hk

/-- What becomes of a name at the front of a statement. -/
theorem resolvedRun_name {f : Field} {ts : List Token} {cs ds : List (Field × Node)}
    (h : ResolvedRun s ((f, Node.nameOf none ts) :: cs) ds) :
    (∃ m es, StaysWhole s (Node.nameOf none ts) ∧ ResolvedRun s cs es ∧ ds = (f, m) :: es) ∨
      ∃ t front dot back es, Divides s ts t front dot back ∧ ResolvedRun s cs es ∧
        ds = (f, Node.nameOf (some t) front) :: (f, .token dot) :: (f, Node.nameOf none back) :: es := by
  generalize hName : Node.nameOf none ts = n at h
  cases h with
  | cons _ hWhole hs => exact Or.inl ⟨_, _, hWhole, hs, rfl⟩
  | @divided _ us front back t dot _ es hDivides hs =>
    obtain rfl : ts = us := by
      rw [← Node.tokens_nameOf none ts, hName, Node.tokens_nameOf]
    exact Or.inr ⟨t, front, dot, back, es, hDivides, hs, rfl⟩

/-- The only node with a meaning in a name is the name. -/
theorem eq_nameOf_of_typed {type : Option TypeName} {ts : List Token} {n : Node} (hTyped : IsTyped n)
    (hn : n ∈ (Node.nameOf type ts).walk) : n = Node.nameOf type ts := by
  rw [Node.nameOf, walk_branch] at hn
  refine (List.mem_cons.mp hn).resolve_right fun hBelow => ?_
  obtain ⟨c, hc, hn⟩ := List.mem_flatMap.mp hBelow
  obtain ⟨u, -, rfl⟩ := List.mem_map.mp hc
  exact not_typed_of_bare (.token u) hn hTyped

/-- Only the front of a divided name has a meaning. -/
theorem eq_front_of_typed {front back : List Token} {t : TypeName} {dot : Token} {n : Node}
    (hTyped : IsTyped n)
    (hn : n ∈ [Node.nameOf (some t) front, .token dot, Node.nameOf none back].flatMap Node.walk) :
    n = Node.nameOf (some t) front := by
  simp only [List.flatMap_cons, List.flatMap_nil, List.append_nil, List.mem_append] at hn
  rcases hn with hn | hn | hn
  · exact eq_nameOf_of_typed hTyped hn
  · exact absurd hTyped (not_typed_of_bare (.token dot) hn)
  · have hSame := eq_nameOf_of_typed hTyped hn
    obtain ⟨u, us, hNode⟩ := hTyped
    have hNone := hSame.symm.trans hNode
    simp [Node.nameOf] at hNone

section Trees

variable (hWidens : Scope.Widens s s')

include hWidens

/-- The meanings of the parts of a name stay, down to the part that has one. -/
theorem resolve_of_unmissed {t : Option TypeName} {front middle ts : List Token}
    (h : Unmissed s s'.classpath (Node.nameOf t front) (Node.nameOf none ts))
    (hFront : front <+: middle) (hMiddle : middle <+: ts) :
    s'.resolve (Node.nameOf none middle) = s.resolve (Node.nameOf none middle) := by
  rw [Scope.resolve, Scope.resolve, nameParts_nameOf]
  refine hWidens.resolveParts fun u hu => h _ ?_ ?_ u hu
  · rw [nameParts_nameOf]
    exact hFront.filterMap _
  · rw [nameParts_nameOf]
    exact hMiddle.filterMap _

/-- A name with a meaning that stays whole under the smaller classpath. -/
theorem kept_of_whole {ts : List Token} {after : List Node} {n : Node} (hTyped : IsTyped n)
    (hn : n = Node.nameOf (s.resolve (Node.nameOf none ts)) ts)
    (hAfter : (∃ t, s'.resolve (Node.nameOf none ts) = some t) →
      Node.nameOf (s'.resolve (Node.nameOf none ts)) ts ∈ after) :
    Kept s s'.classpath [Node.nameOf none ts] after n := by
  obtain ⟨t, us, hNode⟩ := hTyped
  have hSome : s.resolve (Node.nameOf none ts) = some t := by
    have hKinds := hn.symm.trans hNode
    simp only [Node.nameOf, Node.branch.injEq, NodeKind.name.injEq] at hKinds
    exact hKinds.1
  subst hn
  refine ⟨_, List.mem_singleton_self _, rfl, by simp, fun hUnmissed => ?_⟩
  have hSame := resolve_of_unmissed hWidens hUnmissed (List.prefix_refl ts) (List.prefix_refl ts)
  rw [← hSame]
  exact hAfter ⟨t, hSame.trans hSome⟩

/-- The front of a name that is divided under the smaller classpath is divided off under the larger
one, unless a type that was missed is known: were another part the longest with a meaning, it would
have been so before. -/
theorem divides_of_unmissed {ts front back : List Token} {t : TypeName} {dot : Token}
    (h : Divides s ts t front dot back)
    (hUnmissed : Unmissed s s'.classpath (Node.nameOf (some t) front) (Node.nameOf none ts)) :
    s'.resolve (Node.nameOf none ts) = none ∧ s'.resolve (Node.nameOf none front) = some t ∧
      ∀ {t' front' dot' back'}, Divides s' ts t' front' dot' back' → front' = front ∧ t' = t := by
  have hPrefix {front' dot' back'} (hSplits : SplitsAt ts front' dot' back') : front' <+: ts :=
    ⟨dot' :: back', hSplits.tokens.symm⟩
  have hFront := hPrefix h.splits
  have hSame {middle : List Token} (hLe : front <+: middle) (hMiddle : middle <+: ts) :=
    resolve_of_unmissed hWidens hUnmissed hLe hMiddle
  have hDenotes : s'.resolve (Node.nameOf none front) = some t :=
    (hSame (List.prefix_refl _) hFront).trans h.denotes
  refine ⟨(hSame hFront (List.prefix_refl _)).trans h.whole, hDenotes, ?_⟩
  intro t' front' dot' back' h'
  have hFront' := hPrefix h'.splits
  rcases Nat.lt_trichotomy front.length front'.length with hLt | hEq | hGt
  · have hLonger := hSame (List.prefix_of_prefix_length_le hFront hFront' hLt.le) hFront'
    rw [h.longest _ _ _ h'.splits hLt, h'.denotes] at hLonger
    cases hLonger
  · obtain rfl : front' = front :=
      ((List.prefix_of_prefix_length_le hFront' hFront hEq.ge).eq_of_length hEq.symm)
    exact ⟨rfl, Option.some.inj (h'.denotes.symm.trans hDenotes)⟩
  · rw [h'.longest _ _ _ h.splits hGt] at hDenotes
    cases hDenotes

/-- A name that is divided under the smaller classpath keeps its front, if under the larger one it
stays whole only where it is not to be divided, or is divided likewise. -/
theorem kept_of_divided {ts front back : List Token} {t : TypeName} {dot : Token}
    (h : Divides s ts t front dot back) {after : List Node} {n : Node} (hTyped : IsTyped n)
    (hn : n ∈ [Node.nameOf (some t) front, .token dot, Node.nameOf none back].flatMap Node.walk)
    (hAfter : StaysWhole s' (Node.nameOf none ts) ∨ ∃ t' front' dot' back',
      Divides s' ts t' front' dot' back' ∧ Node.nameOf (some t') front' ∈ after) :
    Kept s s'.classpath [Node.nameOf none ts] after n := by
  obtain rfl := eq_front_of_typed hTyped hn
  refine ⟨_, List.mem_singleton_self _, rfl, ?_, fun hUnmissed => ?_⟩
  · rw [Node.tokens_nameOf, Node.tokens_nameOf]
    exact ⟨dot :: back, h.splits.tokens.symm⟩
  · obtain ⟨hNone, hDenotes, hOnly⟩ := divides_of_unmissed hWidens h hUnmissed
    rcases hAfter with hWhole | ⟨t', front', dot', back', hDivides, hMem⟩
    · have hNot := hWhole ts rfl hNone front dot back h.splits
      rw [hDenotes] at hNot
      cases hNot
    · obtain ⟨rfl, rfl⟩ := hOnly hDivides
      exact hMem

/-- What becomes of a statement under the two classpaths, element by element. -/
theorem kept_of_resolvedRun {cs ds ds' : List (Field × Node)}
    (hBelow : ∀ c ∈ cs, ∀ m m', Resolved s c.2 m → Resolved s' c.2 m' → ∀ n ∈ m.walk, IsTyped n →
      Kept s s'.classpath c.2.walk m'.walk n)
    (h : ResolvedRun s cs ds) (h' : ResolvedRun s' cs ds') :
    ∀ n ∈ Node.walkOf ds, IsTyped n → Kept s s'.classpath (Node.walkOf cs) (Node.walkOf ds') n := by
  induction cs generalizing ds ds' with
  | nil =>
    cases h
    exact fun n hn => nomatch hn
  | cons c cs ih =>
    intro n hn hTyped
    have hRest {es es'} (hs : ResolvedRun s cs es) (hs' : ResolvedRun s' cs es')
        (hn : n ∈ Node.walkOf es) : Kept s s'.classpath (Node.walkOf cs) (Node.walkOf es') n :=
      ih (fun d hd => hBelow d (List.mem_cons_of_mem _ hd)) hs hs' n hn hTyped
    have hSelf {f : Field} {ts : List Token} :
        [Node.nameOf none ts] ⊆ Node.walkOf ((f, Node.nameOf none ts) :: cs) := by
      intro o ho
      obtain rfl := List.mem_singleton.mp ho
      exact List.mem_append_left _ (by rw [Node.nameOf, walk_branch]; exact List.mem_cons_self)
    have hLater {f : Field} {e : Node} : Node.walkOf cs ⊆ Node.walkOf ((f, e) :: cs) :=
      List.subset_append_right _ _
    cases h with
    | @cons f e m _ ds hNode hWhole hs =>
      rw [Node.walkOf, List.mem_append] at hn
      cases h' with
      | @cons _ _ m' _ ds' hNode' hWhole' hs' =>
        rcases hn with hn | hn
        · exact (hBelow (f, e) List.mem_cons_self m m' hNode hNode' n hn hTyped).mono
            (List.subset_append_left _ _) (List.subset_append_left _ _)
        · exact (hRest hs hs' hn).mono hLater (List.subset_append_right _ _)
      | @divided _ ts front' back' t' dot' _ ds' hDivides' hs' =>
        rcases hn with hn | hn
        · obtain rfl := eq_of_resolved_name hNode
          refine (kept_of_whole hWidens hTyped (eq_nameOf_of_typed hTyped hn) ?_).mono hSelf
            (List.Subset.refl _)
          rintro ⟨t, hSome⟩
          rw [hDivides'.whole] at hSome
          cases hSome
        · refine (hRest hs hs' hn).mono hLater fun o ho => ?_
          simp only [Node.walkOf, List.mem_append]
          exact Or.inr (Or.inr (Or.inr ho))
    | @divided f ts front back t dot _ ds hDivides hs =>
      have hParts : n ∈ [Node.nameOf (some t) front, .token dot, Node.nameOf none back].flatMap
          Node.walk ∨ n ∈ Node.walkOf ds := by
        simpa [Node.walkOf, or_assoc] using hn
      rcases resolvedRun_name h' with ⟨m', es', hWhole', hs', rfl⟩ |
        ⟨t', front', dot', back', es', hDivides', hs', rfl⟩
      · rcases hParts with hn | hn
        · exact (kept_of_divided hWidens hDivides hTyped hn (Or.inl hWhole')).mono hSelf
            (List.Subset.refl _)
        · exact (hRest hs hs' hn).mono hLater (List.subset_append_right _ _)
      · rcases hParts with hn | hn
        · refine (kept_of_divided hWidens hDivides hTyped hn
            (Or.inr ⟨t', front', dot', back', hDivides', ?_⟩)).mono hSelf (List.Subset.refl _)
          rw [Node.walkOf, Node.nameOf, walk_branch]
          exact List.mem_append_left _ List.mem_cons_self
        · refine (hRest hs hs' hn).mono hLater fun o ho => ?_
          simp only [Node.walkOf, List.mem_append]
          exact Or.inr (Or.inr (Or.inr ho))

omit hWidens in
/-- What becomes of children that are no elements of a statement. -/
theorem kept_of_resolvedEach {cs ds ds' : List (Field × Node)}
    (hBelow : ∀ c ∈ cs, ∀ m m', Resolved s c.2 m → Resolved s' c.2 m' → ∀ n ∈ m.walk, IsTyped n →
      Kept s s'.classpath c.2.walk m'.walk n)
    (h : ResolvedEach s cs ds) (h' : ResolvedEach s' cs ds') :
    ∀ n ∈ Node.walkOf ds, IsTyped n → Kept s s'.classpath (Node.walkOf cs) (Node.walkOf ds') n := by
  induction cs generalizing ds ds' with
  | nil =>
    cases h
    exact fun n hn => nomatch hn
  | cons c cs ih =>
    intro n hn hTyped
    cases h with
    | @cons f e m _ ds hNode hs =>
      cases h' with
      | @cons _ _ m' _ ds' hNode' hs' =>
        rcases List.mem_append.mp hn with hn | hn
        · exact (hBelow (f, e) List.mem_cons_self m m' hNode hNode' n hn hTyped).mono
            (List.subset_append_left _ _) (List.subset_append_left _ _)
        · exact (ih (fun d hd => hBelow d (List.mem_cons_of_mem _ hd)) hs hs' n hn hTyped).mono
            (List.subset_append_right _ _) (List.subset_append_right _ _)

omit hWidens in
/-- The name of a single-type import has the type it names under every classpath. -/
theorem kept_of_single {cs ns : List (Field × Node)}
    (hBare : (Node.branch .importDeclaration cs).Bare)
    (hName : (Node.branch .importDeclaration cs).field? .name = some (.branch (.name none) ns))
    {t : TypeName} {n : Node} {after : List Node}
    (hn : n ∈ ((Node.branch .importDeclaration cs).setField .name
      (.branch (.name (some t)) ns)).walk) (hTyped : IsTyped n)
    (hAfter : ((Node.branch .importDeclaration cs).setField .name
      (.branch (.name (some t)) ns)).walk ⊆ after) :
    Kept s s'.classpath (Node.branch .importDeclaration cs).walk after n := by
  have hFiled : ∃ rest, filed .name cs = .branch (.name none) ns :: rest :=
    List.head?_eq_some_iff.mp hName
  obtain ⟨rest, hFiled⟩ := hFiled
  obtain ⟨front, back, rfl, hReplace⟩ := exists_split_of_filed hFiled
  have hWalk : n ∈ (Node.branch .importDeclaration (front ++ (.name, .branch (.name (some t)) ns) ::
      back)).walk := by
    simpa only [Node.setField, hReplace] using hn
  have hChild (c : Field × Node) (hc : c ∈ front ++ (.name, .branch (.name none) ns) :: back)
      (hn : n ∈ c.2.walk) : False := not_typed_of_bare (hBare.child hc) hn hTyped
  have hNew : n = .branch (.name (some t)) ns := by
    rw [walk_branch] at hWalk
    rcases List.mem_cons.mp hWalk with rfl | hWalk
    · obtain ⟨u, us, hNode⟩ := hTyped
      simp [Node.nameOf] at hNode
    · obtain ⟨c, hc, hn⟩ := List.mem_flatMap.mp hWalk
      rcases List.mem_append.mp hc with hc | hc
      · exact (hChild c (by simp [hc]) hn).elim
      · rcases List.mem_cons.mp hc with rfl | hc
        · rw [walk_branch] at hn
          refine (List.mem_cons.mp hn).resolve_right fun hBelow => ?_
          obtain ⟨d, hd, hn⟩ := List.mem_flatMap.mp hBelow
          exact hChild (.name, .branch (.name none) ns) (by simp) (Node.mem_walk_of_child hd hn)
        · exact (hChild c (by simp [hc]) hn).elim
  subst hNew
  refine ⟨.branch (.name none) ns, ?_, rfl, List.prefix_refl _, fun _ => hAfter hn⟩
  rw [walk_branch]
  refine List.mem_cons_of_mem _ (List.mem_flatMap.mpr ⟨(.name, .branch (.name none) ns), by simp, ?_⟩)
  rw [walk_branch]
  exact List.mem_cons_self

/-- Names with a meaning keep it. -/
theorem kept_of_resolved {n : Node} (hFine : n.WellFormed) (hBare : n.Bare) {m m' : Node}
    (h : Resolved s n m) (h' : Resolved s' n m') :
    ∀ x ∈ m.walk, IsTyped x → Kept s s'.classpath n.walk m'.walk x := by
  induction hFine generalizing m m' with
  | token t =>
    cases h
    exact fun x hx hTyped => absurd hTyped (not_typed_of_bare (.token t) hx)
  | @branch k cs hFills hChildren ih =>
    intro x hx hTyped
    have hFine : (Node.branch k cs).WellFormed := .branch hFills hChildren
    have hBelow : ∀ c ∈ cs, ∀ m m', Resolved s c.2 m → Resolved s' c.2 m' →
        ∀ n ∈ m.walk, IsTyped n → Kept s s'.classpath c.2.walk m'.walk n := fun c hc m m' hm hm' =>
      ih c hc (hBare.child hc) hm hm'
    cases h with
    | name =>
      obtain ⟨ts, rfl⟩ := hFine.exists_tokens
      obtain rfl := eq_of_resolved_name h'
      refine (kept_of_whole hWidens hTyped (eq_nameOf_of_typed hTyped hx) fun _ => ?_).mono ?_
        (List.Subset.refl _)
      · rw [Node.nameOf, walk_branch]
        exact List.mem_cons_self
      · intro o ho
        rw [List.mem_singleton.mp ho, Node.nameOf, walk_branch]
        exact List.mem_cons_self
    | call m cs =>
      obtain ⟨t, rfl⟩ := hFine.exists_callee
      rw [walk_branch] at hx
      rcases List.mem_cons.mp hx with rfl | hx
      · obtain ⟨t, ts, hNode⟩ := hTyped
        simp [Node.nameOf] at hNode
      · obtain ⟨c, hc, hx⟩ := List.mem_flatMap.mp hx
        obtain rfl := List.mem_singleton.mp hc
        exact absurd hTyped (not_typed_of_bare (.token t) hx)
    | package | collective => exact absurd hTyped (not_typed_of_bare hBare hx)
    | @single _ ns hName hSingle =>
      have hSame : m' = (Node.branch .importDeclaration cs).setField .name (.branch (.name
          (some ⟨Import.qualifiedName (.branch .importDeclaration cs)⟩)) ns) := by
        cases h' with
        | single hName' _ =>
          obtain rfl : ns = _ := by simpa using hName.symm.trans hName'
          rfl
        | collective hNot => exact absurd hSingle (by simp [hNot])
        | branch hk => simp [NodeKind.form] at hk
      subst hSame
      exact kept_of_single hBare hName hx hTyped (List.Subset.refl _)
    | @statement _ ds hRun =>
      cases h' with
      | @statement _ ds' hRun' =>
        refine (kept_of_resolvedRun hWidens hBelow hRun hRun' x ?_ hTyped).mono
          (List.subset_cons_self _ _) (List.subset_cons_self _ _)
        rw [Node.walk] at hx
        refine (List.mem_cons.mp hx).resolve_left ?_
        rintro rfl
        obtain ⟨t, ts, hNode⟩ := hTyped
        simp [Node.nameOf] at hNode
      | branch hk => simp [NodeKind.form] at hk
    | @branch _ _ ds hk hEach =>
      have hEach' : ∃ ds', m' = .branch k ds' ∧ ResolvedEach s' cs ds' := by
        cases h' with
        | branch _ hEach' => exact ⟨_, rfl, hEach'⟩
        | name | call | package | single | collective | statement => simp [NodeKind.form] at hk
      obtain ⟨ds', rfl, hEach'⟩ := hEach'
      refine (kept_of_resolvedEach hBelow hEach hEach' x ?_ hTyped).mono
        (List.subset_cons_self _ _) (List.subset_cons_self _ _)
      rw [Node.walk] at hx
      refine (List.mem_cons.mp hx).resolve_left ?_
      rintro rfl
      obtain ⟨t, ts, hNode⟩ := hTyped
      simp only [Node.nameOf, Node.branch.injEq] at hNode
      simp [hNode.1, NodeKind.form] at hk

end Trees

-- ---------------------------------------------------------------------------
-- Units
-- ---------------------------------------------------------------------------

/-- A name of a unit that has a meaning under one classpath comes of a name that was read there, and
has the same meaning under every larger classpath, unless that knows a type which the lookup missed on
the way from the whole name to the part that has the meaning. -/
theorem keeps_meaning {tree : Node} (h : tree.Fresh) {c c' : Classpath} (hMore : c.stubs ⊆ c'.stubs) :
    ∀ n ∈ (ofUnit c tree).value.walk, ∀ t cs, n = .branch (.name (some t)) cs →
      ∃ o ∈ tree.walk, o.form = .name ∧ n.tokens <+: o.tokens ∧
        ((∀ parts, n.nameParts <+: parts → parts <+: o.nameParts →
            ∀ u ∈ (Scope.ofUnit tree c).missed parts, c'.knows u = false) →
          n ∈ (ofUnit c' tree).value.walk) := by
  intro n hn t cs hType
  have hWidens : Scope.Widens (Scope.ofUnit tree c) (Scope.ofUnit tree c') :=
    Scope.widens_ofUnit tree fun t => Classpath.knows_of_subset hMore
  obtain ⟨-, hSmaller, hFine, -⟩ := ofUnit_attaches h c
  obtain ⟨-, hLarger, -⟩ := ofUnit_attaches h c'
  have hTyped : IsTyped n := by
    obtain ⟨ts, rfl⟩ := (hType ▸ hFine.walk n hn).exists_tokens
    exact ⟨t, ts, hType⟩
  exact kept_of_resolved hWidens h.wellFormed h.bare hSmaller hLarger n hn hTyped

open Draft in
/-- A class that extends a type imported on demand. -/
def onDemand : Sample := .ofDraft (node "program" [packageOf ["p"],
  importingAll ["log4j", "apache", "org"] "\n",
  classOf "A" (typeWord "AppenderSkeleton" " ") (braced "class_body" []) "\n"]) "\n"

set_option maxRecDepth 100000 in
theorem keeps_meaning_onDemand : ∃ (tree : Node) (more : List Stub), onDemand.unit? = some tree ∧ tree.Fresh ∧
    more = [{ name := ⟨"q.Other"⟩ }] ∧ defaultStubs ⊆ defaultStubs ++ more ∧
    ∀ n ∈ (ofUnit ⟨defaultStubs⟩ tree).value.walk, ∀ t cs, n = .branch (.name (some t)) cs →
      ∃ o ∈ tree.walk, o.form = .name ∧ n.tokens <+: o.tokens ∧
        ((∀ parts, n.nameParts <+: parts → parts <+: o.nameParts →
            ∀ u ∈ (Scope.ofUnit tree ⟨defaultStubs⟩).missed parts,
              (⟨defaultStubs ++ more⟩ : Classpath).knows u = false) →
          n ∈ (ofUnit ⟨defaultStubs ++ more⟩ tree).value.walk) := by
  obtain ⟨tree, hTree⟩ := Option.isSome_iff_exists.mp (show onDemand.unit?.isSome = true by decide +kernel)
  have hFresh := Parsing.fresh_of_sample (by decide +kernel) hTree
  have hMore : defaultStubs ⊆ defaultStubs ++ [{ name := ⟨"q.Other"⟩ }] := List.subset_append_left _ _
  exact ⟨tree, _, hTree, hFresh, rfl, hMore, keeps_meaning hFresh hMore⟩

end Attribution

end SourceMigration
