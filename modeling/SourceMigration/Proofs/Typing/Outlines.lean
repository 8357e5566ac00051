import SourceMigration.Proofs.Typing.Justified
import SourceMigration.Proofs.Typing.Matching
import SourceMigration.Proofs.Typing.Siblings

/-!
# SourceMigration — the scope of a unit with some members in another order

A scope is made up of tables: the types of a unit under their simple and their full names, and for each
of them its fields and methods. Each table is gathered from the members of the types in the order of the
text, so it is enough to look at two members at a time. Whether the first or the last entry of a key
counts, two members can be exchanged where they do not have a key in common, or say the same of it.

The types of a unit are those that stand directly in others up to the unit. The body of a type within a
method, or anywhere else, adds nothing to the tables.

## Results

* `declarations_fill` — what is told piece by piece of the types that a tree declares.
* `describe_matches`  — what is said about a class with its members in another order.
* `matches_ofUnit`    — the scope is the same but for the order in its tables.
-/

namespace SourceMigration

/-- The name that a declaration has whatever fills the layer. -/
def Layer.declaredName (l : Layer) : String := (Node.branch l.kind (l.front ++ l.back)).declaredName

theorem Layer.declaredName_fill (l : Layer) (n : Node) (h : l.field ≠ .name) :
    (l.fill n).declaredName = l.declaredName := by
  simp only [Layer.declaredName, Layer.fill, Layer.children, Node.declaredName, Node.tokenAt?, Node.field?,
    Node.field_branch, filed_append, filed_cons, if_neg h]

/-- The full name of the declared type whose body is in a place: a type that stands in `owner`, directly or
within others. The body of no other type is in the tables of a scope. -/
def declaredOwner? (owner : String) : Context → Option String
  | [] => none
  | l :: c =>
    if l.kind = .typeDeclaration ∧ l.field = .body then
      match c with
      | [] => some (TypeName.member owner l.declaredName).text
      | _ :: c => declaredOwner? (TypeName.member owner l.declaredName).text c
    else none

/-- The same for a place in a unit. -/
def bodyOwner? (package : String) : Context → Option String
  | [] => none
  | l :: c => if l.field = .types then declaredOwner? package c else none

/-- What a member adds to the methods of its class. -/
def methodsAt (scope : Scope) (m : Node) : List (String × Option TypeName) :=
  if m.form = .method then [(m.declaredName, scope.returnType m)] else []

/-- Two members that declare types of one simple or full name. -/
def SharesType (owner : String) (m m' : Node) : Prop :=
  ∃ d ∈ Scope.declarations owner m, ∃ d' ∈ Scope.declarations owner m',
    d.1 = d'.1 ∨ d.2.declaredName = d'.2.declaredName

instance (owner : String) (m m' : Node) : Decidable (SharesType owner m m') :=
  inferInstanceAs (Decidable (∃ d ∈ _, _))

/-- Two members of a declared type whose order counts in the tables of a scope: both declare types of one
name, or methods of one name that return different types, or fields of one name and different types. -/
def Clashes (scope : Scope) (owner : String) (m m' : Node) : Prop :=
  SharesType owner m m' ∨ Dispute (methodsAt scope m) (methodsAt scope m') ∨
    Dispute (Attribution.recordedAt scope m) (Attribution.recordedAt scope m')

instance (scope : Scope) (owner : String) (m m' : Node) : Decidable (Clashes scope owner m m') :=
  inferInstanceAs (Decidable (_ ∨ _ ∨ _))

/-- The same is said about two classes, but for the order. -/
structure ClassInfo.Matches (i j : ClassInfo) : Prop where
  supertype : j.extends? = i.extends?
  fields : Lasts Eq i.fields j.fields
  methods : Lasts Eq i.methods j.methods

namespace ClassInfo.Matches

theorem refl (i : ClassInfo) : i.Matches i :=
  ⟨rfl, piecewise_lasts_eq.refl _, piecewise_lasts_eq.refl _⟩

theorem trans {i j k : ClassInfo} (h : i.Matches j) (h' : j.Matches k) : i.Matches k :=
  ⟨h'.supertype.trans h.supertype, piecewise_lasts_eq.trans h.fields h'.fields,
    piecewise_lasts_eq.trans h.methods h'.methods⟩

end ClassInfo.Matches

namespace Scope

variable {r : Reordering} {owner : String}

-- ---------------------------------------------------------------------------
-- Declared types
-- ---------------------------------------------------------------------------

theorem declarationsInBody_eq (owner : String) (cs : List (Field × Node)) :
    declarationsInBody owner cs = (filed .body cs).flatMap fun n => declarationsAmong owner n.children := by
  induction cs with
  | nil => rfl
  | cons c cs ih =>
    obtain ⟨f, n⟩ := c
    rw [filed_cons]
    split
    · rename_i hBody
      subst hBody
      cases n with
      | token t => exact ih
      | branch k ms => rw [declarationsInBody, ih, List.flatMap_cons]; rfl
    · rename_i hOther
      have hNone : ∀ c ∈ [(f, n)], c.1 ≠ .body := by simpa using hOther
      rw [← ih]
      exact declarationsInBody_append hNone

/-- What a layer declares. -/
theorem declarations_layer (owner : String) (l : Layer) (n : Node) : declarations owner (l.fill n) =
    if l.kind = .typeDeclaration then
      (TypeName.member owner (l.fill n).declaredName, l.fill n) ::
        ((l.fill n).field .body).flatMap fun b =>
          declarationsAmong (TypeName.member owner (l.fill n).declaredName).text b.children
    else [] := by
  split
  · rename_i hKind
    obtain ⟨k, front, f, back⟩ := l
    obtain rfl : k = .typeDeclaration := hKind
    rw [Layer.fill, declarations, declarationsInBody_eq]
    rfl
  · rename_i hKind
    refine declarations_eq_nil (fun hForm => hKind ?_) owner
    obtain ⟨cs, hEq⟩ := Node.exists_children (k := .typeDeclaration) rfl hForm
    exact (Node.branch.inj hEq).1

/-- The types declared in a body are those of its members. -/
theorem declarationsAmong_body (owner : String) (r : Reordering) (members : List Node) :
    declarationsAmong owner (r.body members).children = members.flatMap (declarations owner) := by
  simp [Reordering.body, Node.children, declarationsAmong_eq, List.flatMap_map, declarations]

variable {β : Type} {R : List β → List β → Prop}

/-- One step from a type through its body to what the body declares. -/
theorem declarations_step (hR : Piecewise R) (g : TypeName × Node → β) {l : Layer} {n m : Node}
    (hTwin : Twin r n m)
    (hHead : l.kind = .typeDeclaration → ∀ t, R [g (t, l.fill n)] [g (t, l.fill m)])
    (hInner : l.kind = .typeDeclaration → l.field = .body →
      R ((declarationsAmong (TypeName.member owner l.declaredName).text n.children).map g)
        ((declarationsAmong (TypeName.member owner l.declaredName).text m.children).map g)) :
    R ((declarations owner (l.fill n)).map g) ((declarations owner (l.fill m)).map g) := by
  rw [declarations_layer, declarations_layer]
  by_cases hKind : l.kind = .typeDeclaration
  · rw [if_pos hKind, if_pos hKind, (Twin.within l hTwin).declaredName, List.map_cons, List.map_cons]
    refine hR.append (hHead hKind _) ?_
    by_cases hField : l.field = .body
    · rw [l.declaredName_fill n (by simp [hField])]
      simp only [Layer.fill, Layer.children, Node.field_branch, filed_append, filed_cons, if_pos hField,
        List.flatMap_append, List.flatMap_cons, List.map_append]
      exact hR.append (hR.refl _) (hR.append (hInner hKind hField) (hR.refl _))
    · simp only [Layer.fill, Layer.children, Node.field_branch, filed_append, filed_cons, if_neg hField]
      exact hR.refl _
  · rw [if_neg hKind, if_neg hKind]
    exact hR.refl []

/-- What is told piece by piece of the types that a tree declares: with some members in another order it
is enough to tell it of those members, where their types are declared, and of the types around them. -/
theorem declarations_fill (hR : Piecewise R) (g : TypeName × Node → β) {Base : String → Prop}
    (hOne : ∀ owner l c t, l.kind = .typeDeclaration →
      (∀ o, declaredOwner? owner (l :: c) = some o → Base o) →
      R [g (t, l.fill (Context.fill c r.before))] [g (t, l.fill (Context.fill c r.after))])
    (hBody : ∀ o, Base o →
      R ((r.old.flatMap (declarations o)).map g) ((r.new.flatMap (declarations o)).map g))
    {c : Context} (hBase : ∀ o, declaredOwner? owner c = some o → Base o) :
    R ((declarations owner (c.fill r.before)).map g) ((declarations owner (c.fill r.after)).map g) := by
  fun_induction declaredOwner? owner c with
  | case1 owner => exact hR.refl []
  | case2 owner l hBodyOf =>
    refine declarations_step hR g .here (fun hKind t => hOne owner l [] t hKind ?_) fun _ _ => ?_
    · simpa [declaredOwner?, hBodyOf] using hBase
    · rw [Context.fill_nil, Context.fill_nil, Reordering.before, Reordering.after,
        declarationsAmong_body, declarationsAmong_body]
      exact hBody _ (hBase _ rfl)
  | case3 owner l hBodyOf k c ih =>
    refine declarations_step hR g (.fill (k :: c) .here)
      (fun hKind t => hOne owner l (k :: c) t hKind ?_) fun _ _ => ?_
    · simpa [declaredOwner?, hBodyOf] using hBase
    · simp only [Context.fill_cons, Layer.fill, Node.children, Layer.children, declarationsAmong_eq,
        List.flatMap_append, List.flatMap_cons, List.map_append]
      exact hR.append (hR.refl _) (hR.append (ih hBase) (hR.refl _))
  | case4 owner l c hOther =>
    refine declarations_step hR g (.fill c .here) (fun hKind t => hOne owner l c t hKind ?_)
      fun hKind hField => absurd ⟨hKind, hField⟩ hOther
    intro o ho
    rw [declaredOwner?.eq_def] at ho
    simp only [if_neg hOther] at ho
    cases ho

-- ---------------------------------------------------------------------------
-- What is said about a class
-- ---------------------------------------------------------------------------

variable (s : Scope)

theorem recordedAt_twin {n m : Node} (h : Twin r n m) :
    Attribution.recordedAt s m = Attribution.recordedAt s n := by
  rw [Attribution.recordedAt, Attribution.recordedAt, h.form, Twin.declared s (h.field (by simp))]

theorem methodsAt_twin {n m : Node} (h : Twin r n m) : methodsAt s m = methodsAt s n := by
  have hReturns : s.returnType m = s.returnType n :=
    Twin.bind_resolve (Twin.bind_typeHead (Twin.getLast? (h.field (f := .modifiers) (by simp)))) s
  rw [methodsAt, methodsAt, h.form, h.declaredName, hReturns]

/-- What is said about a class is gathered from its members. -/
theorem describe_eq (decl : Node) : s.describe decl =
    { extends? := decl.supertypeName?.bind s.resolve
      fields := decl.members.flatMap (Attribution.recordedAt s)
      methods := decl.members.flatMap (methodsAt s) } := by
  rw [describe, List.filterMap_eq_flatMap_toList]
  congr 1
  · refine List.flatMap_congr fun m _ => ?_
    cases m with
    | token t => rfl
    | branch k cs => cases k <;> rfl
  · refine List.flatMap_congr fun m _ => ?_
    cases m with
    | token t => rfl
    | branch k cs => cases k <;> rfl

/-- The members of a declaration are twins, unless they are those in another order. -/
theorem members_fill (l : Layer) (c : Context) :
    List.Forall₂ (Twin r) (l.fill (c.fill r.before)).members (l.fill (c.fill r.after)).members ∨
      c = [] ∧ l.field = .body ∧ (l.fill (c.fill r.before)).members = r.old ∧
        (l.fill (c.fill r.after)).members = r.new := by
  simp only [Node.members, Node.field?, Layer.fill, Layer.children, Node.field_branch, filed_append,
    filed_cons]
  cases filed .body l.front with
  | cons b bs => exact .inl (Twin.forall₂_same _)
  | nil =>
    by_cases hField : l.field = .body
    · simp only [if_pos hField, List.nil_append, List.head?_cons, Option.map_some, Option.getD_some]
      cases c with
      | nil => exact .inr ⟨rfl, hField, r.members_body r.old, r.members_body r.new⟩
      | cons k c => exact .inl (Twin.filed_layer k (.fill c .here) .members)
    · simp only [if_neg hField]
      exact .inl (Twin.forall₂_same _)

/-- What is said about a class with some members in another order, its own or those of another. -/
theorem describe_matches {l : Layer} {c : Context} (hOwn : c = [] → l.field = .body →
      Shuffles (fun m m' => Dispute (methodsAt s m) (methodsAt s m') ∨
        Dispute (Attribution.recordedAt s m) (Attribution.recordedAt s m')) r.old r.new) :
    (s.describe (l.fill (c.fill r.before))).Matches (s.describe (l.fill (c.fill r.after))) := by
  have hTwin : Twin r (l.fill (c.fill r.before)) (l.fill (c.fill r.after)) := .fill (l :: c) .here
  rw [describe_eq, describe_eq]
  refine ⟨?_, ?_, ?_⟩
  · have hClause := hTwin.first (f := .superclass) (by simp)
    exact Twin.bind_resolve (Twin.bind_typeHead (Twin.bind_first hClause (by simp))) s
  · rcases members_fill l c with hMembers | ⟨hc, hField, hOld, hNew⟩
    · refine piecewise_lasts_eq.flatMap (hMembers.imp fun _ _ h => ?_)
      rw [recordedAt_twin s h]
      exact piecewise_lasts_eq.refl _
    · simp only [hOld, hNew]
      exact (hOwn hc hField).flatMap piecewise_lasts_eq fun m m' h => lasts_of_not_dispute (not_or.mp h).2
  · rcases members_fill l c with hMembers | ⟨hc, hField, hOld, hNew⟩
    · refine piecewise_lasts_eq.flatMap (hMembers.imp fun _ _ h => ?_)
      rw [methodsAt_twin s h]
      exact piecewise_lasts_eq.refl _
    · simp only [hOld, hNew]
      exact (hOwn hc hField).flatMap piecewise_lasts_eq fun m m' h => lasts_of_not_dispute (not_or.mp h).1

-- ---------------------------------------------------------------------------
-- The scope of a unit
-- ---------------------------------------------------------------------------

variable {s}

/-- The types that a unit declares. -/
def typesOf (unit : Node) : List (TypeName × Node) :=
  (unit.field .types).flatMap (declarations (Unit.packageName unit))

/-- The meaning of a name does not depend on the order in the tables. -/
theorem resolveParts_congr {s' : Scope} (hClasspath : s'.classpath = s.classpath)
    (hPackage : s'.package = s.package) (hDeclared : ∀ x, s'.declared.lookup x = s.declared.lookup x)
    (hExplicit : s'.explicit = s.explicit) (hWildcards : s'.wildcards = s.wildcards)
    (hClasses : (s.classes.map Prod.fst).Perm (s'.classes.map Prod.fst)) :
    s'.resolveParts = s.resolveParts := by
  have hKnows : s'.knows = s.knows := by
    funext t
    have hAny (cs : List (TypeName × ClassInfo)) :
        cs.any (·.1 == t) = (cs.map Prod.fst).any (· == t) := by simp [Function.comp_def]
    rw [knows, knows, hAny, hAny, hClasses.any_eq, hClasspath]
  have hSimple : s'.resolveSimple = s.resolveSimple := by
    funext x
    rw [resolveSimple, resolveSimple, hDeclared, hExplicit, hWildcards, hPackage, hClasspath]
  funext parts
  unfold resolveParts
  rw [hKnows, hSimple]

theorem describe_congr {s' : Scope} (h : s'.resolve = s.resolve) : s'.describe = s.describe := by
  funext decl
  simp only [describe, returnType, h]

variable (unit : Node) (classpath : Classpath)

/-- The classes of a unit are described in its own scope. -/
theorem classes_ofUnit : (ofUnit unit classpath).classes =
    (typesOf unit).map fun d => (d.1, (ofUnit unit classpath).describe d.2) := by
  have hFound : declarationsAmong (Unit.packageName unit)
      ((unit.field .types).map fun n => (Field.types, n)) = typesOf unit := by
    rw [declarationsAmong_eq, List.flatMap_map, typesOf]
  rw [ofUnit, describe_congr (resolve_withClasses _ (by simp [Function.comp_def])), hFound]

theorem lookup_ofUnit (x : String) : (ofUnit unit classpath).declared.lookup x =
    ((typesOf unit).map fun d => (d.2.declaredName, d.1)).lookup x := by
  rw [ofUnit, lookup_firstOfEach, declarationsAmong_eq, List.flatMap_map, typesOf]

theorem packageName_twin {n m : Node} (h : Twin r n m) : Unit.packageName m = Unit.packageName n := by
  have hPackage := h.first (f := .package) (by simp)
  rw [Unit.packageName, Unit.packageName, Twin.map_dottedName (Twin.bind_first hPackage (by simp))]

variable {unit classpath} {l : Layer} {c : Context}

/-- What is told piece by piece of the types of a unit. -/
theorem typesOf_fill (hR : Piecewise R) (g : TypeName × Node → β) {Base : String → Prop}
    (hOne : ∀ owner l c t, l.kind = .typeDeclaration →
      (∀ o, declaredOwner? owner (l :: c) = some o → Base o) →
      R [g (t, l.fill (Context.fill c r.before))] [g (t, l.fill (Context.fill c r.after))])
    (hBody : ∀ o, Base o →
      R ((r.old.flatMap (declarations o)).map g) ((r.new.flatMap (declarations o)).map g))
    (hBase : ∀ o, bodyOwner? (Unit.packageName (l.fill (c.fill r.before))) (l :: c) = some o → Base o) :
    R ((typesOf (l.fill (c.fill r.before))).map g) ((typesOf (l.fill (c.fill r.after))).map g) := by
  have hPackage := packageName_twin (.fill (l :: c) (.here (r := r)))
  rw [Context.fill_cons, Context.fill_cons] at hPackage
  rw [typesOf, typesOf, hPackage]
  generalize Unit.packageName (l.fill (c.fill r.before)) = package at hBase ⊢
  simp only [Layer.fill, Layer.children, Node.field_branch, filed_append, filed_cons]
  by_cases hField : l.field = .types
  · simp only [if_pos hField, List.flatMap_append, List.flatMap_cons, List.map_append]
    refine hR.append (hR.refl _) (hR.append ?_ (hR.refl _))
    exact declarations_fill hR g hOne hBody fun o ho => hBase o (by simpa [bodyOwner?, hField] using ho)
  · simp only [if_neg hField]
    exact hR.refl _

/-- Looking for a member upwards asks no more of a class than what is said about it but for the order. -/
theorem climb_matches {α : Type} {s s' : Scope}
    (hClass : ∀ t, Option.Rel ClassInfo.Matches (s.class? t) (s'.class? t))
    {inUnit : TypeName → ClassInfo → Option α}
    (hIn : ∀ t i j, ClassInfo.Matches i j → inUnit t j = inUnit t i) (beyond : TypeName → Option α)
    (fuel : Nat) (seen : List TypeName) (t : TypeName) :
    s'.climb inUnit beyond fuel seen t = s.climb inUnit beyond fuel seen t := by
  induction fuel generalizing seen t with
  | zero => rfl
  | succ fuel ih =>
    have hHere := hClass t
    rw [climb, climb]
    generalize s.class? t = x at hHere ⊢
    generalize s'.class? t = y at hHere ⊢
    cases hHere with
    | none => rfl
    | some h => simp only [hIn _ _ _ h, h.supertype, ih]

/-- Where no class is described otherwise but for the order, every type has the same members. -/
theorem matches_of_classes {s s' : Scope} (hClasspath : s'.classpath = s.classpath)
    (hPackage : s'.package = s.package) (hParts : s'.resolveParts = s.resolveParts)
    (hLength : s'.classes.length = s.classes.length)
    (hClasses : Lasts ClassInfo.Matches s.classes s'.classes) : s.Matches s' where
  package := hPackage
  resolveParts := hParts
  field := by
    funext owner x
    rw [fieldType?, fieldType?, hClasspath, hLength]
    exact climb_matches hClasses (fun _ i j h => (h.fields.lookup x).symm) _ _ _ _
  method := by
    funext owner x
    rw [method?, method?, hClasspath, hLength]
    exact climb_matches hClasses (fun t i j h => by rw [h.methods.lookup x]) _ _ _ _
  known t := by
    have hHere : Option.Rel ClassInfo.Matches (s.class? t) (s'.class? t) := hClasses t
    generalize s.class? t = x at hHere ⊢
    generalize s'.class? t = y at hHere ⊢
    cases hHere <;> rfl
  supertype t := by
    have hHere : Option.Rel ClassInfo.Matches (s.class? t) (s'.class? t) := hClasses t
    generalize s.class? t = x at hHere ⊢
    generalize s'.class? t = y at hHere ⊢
    cases hHere with
    | none => rfl
    | some h => exact h.supertype

/-- Members that declare no types of one name can be exchanged in the tables of types. -/
theorem not_shared {m m' : Node} {d d' : TypeName × Node} (h : ¬ SharesType owner m m')
    (hd : d ∈ declarations owner m) (hd' : d' ∈ declarations owner m') :
    d.1 ≠ d'.1 ∧ d.2.declaredName ≠ d'.2.declaredName :=
  ⟨fun hEq => h ⟨d, hd, d', hd', .inl hEq⟩, fun hEq => h ⟨d, hd, d', hd', .inr hEq⟩⟩

/-- The types of a unit with some members in another order, under their simple names. -/
theorem firsts_fill (hShuffles : ∀ o,
      bodyOwner? (Unit.packageName (l.fill (c.fill r.before))) (l :: c) = some o →
        Shuffles (SharesType o) r.old r.new) :
    Firsts Eq ((typesOf (l.fill (c.fill r.before))).map fun d => (d.2.declaredName, d.1))
      ((typesOf (l.fill (c.fill r.after))).map fun d => (d.2.declaredName, d.1)) := by
  refine typesOf_fill piecewise_firsts_eq _ (fun owner l c t _ _ => ?_) (fun o h => ?_) hShuffles
  · have hName := (Twin.fill (l :: c) (.here (r := r))).declaredName
    rw [Context.fill_cons, Context.fill_cons] at hName
    simp only [hName]
    exact piecewise_firsts_eq.refl _
  · rw [List.map_flatMap, List.map_flatMap]
    refine h.flatMap piecewise_firsts_eq fun m m' hApart => firsts_swap (fun _ => rfl) fun k v w hv hw => ?_
    obtain ⟨d, hd, hEq⟩ := List.mem_map.mp (mem_of_lookup hv)
    obtain ⟨d', hd', hEq'⟩ := List.mem_map.mp (mem_of_lookup hw)
    exact absurd ((congrArg Prod.fst hEq).trans (congrArg Prod.fst hEq').symm)
      (not_shared hApart hd hd').2

/-- What is said about its types. -/
theorem lasts_fill (s : Scope) (hShuffles : ∀ o,
      bodyOwner? (Unit.packageName (l.fill (c.fill r.before))) (l :: c) = some o →
        Shuffles (Clashes s o) r.old r.new) :
    Lasts ClassInfo.Matches ((typesOf (l.fill (c.fill r.before))).map fun d => (d.1, s.describe d.2))
      ((typesOf (l.fill (c.fill r.after))).map fun d => (d.1, s.describe d.2)) := by
  have hR : Piecewise (@Lasts _ TypeName _ ClassInfo.Matches) :=
    piecewise_lasts ClassInfo.Matches.refl ClassInfo.Matches.trans
  refine typesOf_fill hR _ (fun owner l c t hKind h => ?_) (fun o h => ?_) hShuffles
  · refine lasts_single (describe_matches _ fun hc hField => ?_) t
    have hOwn := h (TypeName.member owner l.declaredName).text
      (by simp [declaredOwner?, hKind, hField, hc])
    exact hOwn.mono fun m m' hClash => .inr hClash
  · rw [List.map_flatMap, List.map_flatMap]
    refine h.flatMap hR fun m m' hApart => lasts_swap ClassInfo.Matches.refl fun k v w hv hw => ?_
    obtain ⟨d, hd, hEq⟩ := List.mem_map.mp (List.mem_reverse.mp (mem_of_lookup hv))
    obtain ⟨d', hd', hEq'⟩ := List.mem_map.mp (List.mem_reverse.mp (mem_of_lookup hw))
    exact absurd ((congrArg Prod.fst hEq).trans (congrArg Prod.fst hEq').symm)
      (not_shared (not_or.mp hApart).1 hd hd').1

/-- The scope of a unit with some members in another order is the same but for the order. -/
theorem matches_ofUnit (classpath : Classpath) (hImports : l.field ≠ .imports)
    (hShuffles : ∀ o, bodyOwner? (Unit.packageName (l.fill (c.fill r.before))) (l :: c) = some o →
      Shuffles (Clashes (ofUnit (l.fill (c.fill r.before)) classpath) o) r.old r.new) :
    (ofUnit (l.fill (c.fill r.before)) classpath).Matches
      (ofUnit (l.fill (c.fill r.after)) classpath) := by
  have hPackage := packageName_twin (Twin.fill (l :: c) (.here (r := r)))
  have hSameImports : (l.fill (c.fill r.after)).field .imports =
      (l.fill (c.fill r.before)).field .imports := by
    simp only [Layer.fill, Layer.children, Node.field_branch, filed_append, filed_cons, if_neg hImports]
  have hNames : ((typesOf (l.fill (c.fill r.before))).map Prod.fst).Perm
      ((typesOf (l.fill (c.fill r.after))).map Prod.fst) :=
    typesOf_fill piecewise_perm Prod.fst (fun _ _ _ _ _ _ => .refl _)
      (fun _ h => (h.perm.flatMap_right _).map _) hShuffles
  have hDeclared := firsts_fill fun o ho => (hShuffles o ho).mono fun m m' hShared => .inl hShared
  have hParts : (ofUnit (l.fill (c.fill r.after)) classpath).resolveParts =
      (ofUnit (l.fill (c.fill r.before)) classpath).resolveParts := by
    refine resolveParts_congr rfl hPackage (fun x => ?_) ?_ ?_ ?_
    · rw [lookup_ofUnit, lookup_ofUnit, hDeclared.lookup]
    · simp only [ofUnit, hSameImports]
    · simp only [ofUnit, hSameImports]
    · simpa [classes_ofUnit, Function.comp_def] using hNames
  have hDescribe : (ofUnit (l.fill (c.fill r.after)) classpath).describe =
      (ofUnit (l.fill (c.fill r.before)) classpath).describe :=
    describe_congr <| funext fun n => by rw [resolve, resolve, hParts]
  refine matches_of_classes rfl hPackage hParts ?_ ?_
  · have hLength := hNames.length_eq
    simpa [classes_ofUnit] using hLength.symm
  · rw [classes_ofUnit, classes_ofUnit, hDescribe]
    exact lasts_fill _ hShuffles

end Scope

end SourceMigration
