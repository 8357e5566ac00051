import SourceMigration.Proofs.Typing.Widened

/-!
# SourceMigration — why a name denotes what it denotes

A name is given no type without a reason. The type is declared in the unit, directly or within
another one; or a single-type import of the unit names it; or it is known; or the name itself is a
dotted one that looks like the full name of a type, and denotes the type of that name. Whichever
way a lookup goes, and however far a dotted name is divided, it ends with one of these.

## Results

* `declared_of_declarations` — what the scope counts as declared is declared.
* `justified_of_resolve`     — the meaning of a name has a reason.
* `meant_of_resolved`        — after attribution a name denotes what it means.
* `ofUnit_justified`         — the names of a unit, and the recorded supertypes of its classes.
-/

namespace SourceMigration

/-- A child in a field is a child. -/
theorem Node.exists_mem_children {n m : Node} {f : Field} (h : m ∈ n.field f) :
    ∃ k cs, n = .branch k cs ∧ (f, m) ∈ cs := by
  cases n with
  | token t => cases h
  | branch k cs => exact ⟨k, cs, rfl, mem_of_mem_filed h⟩

theorem Node.WellFormed.of_field {n m : Node} {f : Field} (h : n.WellFormed) (hm : m ∈ n.field f) :
    m.WellFormed := by
  obtain ⟨k, cs, rfl, hc⟩ := Node.exists_mem_children hm
  exact h.child hc

theorem Node.Bare.of_field {n m : Node} {f : Field} (h : n.Bare) (hm : m ∈ n.field f) : m.Bare := by
  obtain ⟨k, cs, rfl, hc⟩ := Node.exists_mem_children hm
  exact h.child hc

-- ---------------------------------------------------------------------------
-- Declared types
-- ---------------------------------------------------------------------------

/-- A type that is declared among some members, or in the body of one of them. Its full name goes
through the names of the types around it. -/
inductive Declared : String → List Node → TypeName → Node → Prop where
  | here {owner : String} {members : List Node} {decl : Node} (h : decl ∈ members)
      (hForm : decl.form = .typeDeclaration) :
      Declared owner members (TypeName.member owner decl.declaredName) decl
  | inside {owner : String} {members : List Node} {outer decl : Node} {t : TypeName}
      (hOuter : outer ∈ members) (hForm : outer.form = .typeDeclaration)
      (h : Declared (TypeName.member owner outer.declaredName).text outer.members t decl) :
      Declared owner members t decl

namespace Scope

variable {owner : String} {t : TypeName} {decl : Node}

/-- Only type declarations declare types. -/
theorem declarations_eq_nil {n : Node} (h : n.form ≠ .typeDeclaration) (owner : String) :
    declarations owner n = [] := by
  cases n with
  | token t => rfl
  | branch k cs => cases k <;> first | rfl | exact absurd rfl h

theorem declarationsAmong_eq (owner : String) (cs : List (Field × Node)) :
    declarationsAmong owner cs = cs.flatMap fun c => declarations owner c.2 := by
  induction cs with
  | nil => rfl
  | cons c cs ih => rw [declarationsAmong, ih, List.flatMap_cons]

/-- Where no child is a body, nothing is declared in one. -/
theorem declarationsInBody_append {cs ds : List (Field × Node)} (h : ∀ c ∈ cs, c.1 ≠ .body) :
    declarationsInBody owner (cs ++ ds) = declarationsInBody owner ds := by
  induction cs with
  | nil => rfl
  | cons c cs ih =>
    obtain ⟨f, n⟩ := c
    have hOther : f ≠ .body := h _ List.mem_cons_self
    have hRest := ih fun d hd => h d (List.mem_cons_of_mem _ hd)
    rw [List.cons_append, ← hRest]
    cases f <;> first | exact absurd rfl hOther | rfl

/-- The types declared in the body of a class are those of its members. -/
theorem declarationsInBody_children (p : ClassParts) :
    declarationsInBody owner p.children = p.members.flatMap (declarations owner) := by
  have hFront : p.children = (p.modifiers.map (fun n => (Field.modifiers, n)) ++
      (.kind, .token p.kind) :: (.name, .token p.name) :: (p.header.map (fun n => (.header, n)) ++
        ((p.extends?.toList.map fun c => (.superclass, ClassParts.clauseOf c)) ++
          p.tail.map fun n => (.tail, n)))) ++ [(.body, p.body)] := by
    simp [ClassParts.children]
  rw [hFront, declarationsInBody_append]
  · simp [declarationsInBody, ClassParts.body, declarationsAmong_eq, declarations,
      List.flatMap_map]
  · intro c hc
    simp only [List.mem_append, List.mem_cons, List.mem_map] at hc
    rcases hc with ⟨_, _, rfl⟩ | rfl | rfl | ⟨_, _, rfl⟩ | ⟨_, _, rfl⟩ | ⟨_, _, rfl⟩ <;> simp

/-- What a member declares is declared among the members. -/
theorem declared_of_declarations {n : Node} (h : n.WellFormed)
    (hDecl : (t, decl) ∈ declarations owner n) {members : List Node} (hn : n ∈ members) :
    Declared owner members t decl := by
  induction h using Node.WellFormed.induct_parts generalizing owner members with
  | token t => cases hDecl
  | branch k cs hk _ _ =>
    rw [declarations_eq_nil] at hDecl
    · cases hDecl
    · intro hForm
      obtain ⟨ds, hEq⟩ := Node.exists_children (k := .typeDeclaration) rfl hForm
      exact hk (Node.branch.inj hEq).1
  | declaration p hParts ih =>
    rw [ClassParts.toNode, declarations, ← ClassParts.toNode, declarationsInBody_children] at hDecl
    rcases List.mem_cons.mp hDecl with hEq | hDecl
    · obtain ⟨rfl, rfl⟩ := Prod.mk.inj hEq
      exact .here hn rfl
    · obtain ⟨m, hm, hDecl⟩ := List.mem_flatMap.mp hDecl
      refine .inside hn rfl ?_
      rw [p.members_toNode]
      exact ih m (by simp [ClassParts.inner, hm]) hDecl hm

-- ---------------------------------------------------------------------------
-- What a name means
-- ---------------------------------------------------------------------------

theorem firstOfEach_subset (entries : List (String × TypeName)) : firstOfEach entries ⊆ entries := by
  have hKept (kept : List (String × TypeName)) :
      entries.foldl (fun kept e => if kept.any (·.1 == e.1) then kept else kept ++ [e]) kept ⊆
        kept ++ entries := by
    induction entries generalizing kept with
    | nil => simp
    | cons e entries ih =>
      rw [List.foldl_cons]
      refine List.Subset.trans (ih _) ?_
      split
      · exact List.append_subset.mpr ⟨List.subset_append_left _ _, fun d hd => by simp [hd]⟩
      · simp
  exact hKept []

/-- The first entry of each key is what a lookup finds. -/
theorem lookup_firstOfEach (entries : List (String × TypeName)) (name : String) :
    (firstOfEach entries).lookup name = entries.lookup name := by
  have hKept : ∀ kept : List (String × TypeName),
      (entries.foldl (fun kept e => if kept.any (·.1 == e.1) then kept else kept ++ [e]) kept).lookup
        name = (kept ++ entries).lookup name := by
    induction entries with
    | nil => simp
    | cons e entries ih =>
      intro kept
      rw [List.foldl_cons, ih]
      split
      · rename_i hAny
        obtain ⟨d, hd, hKey⟩ := List.any_eq_true.mp hAny
        -- an entry of a key that is kept already is never found
        rw [List.lookup_append, List.lookup_append, List.lookup_cons]
        cases hFound : kept.lookup name with
        | some t => rfl
        | none =>
          have hOther : (name == e.1) = false := by
            have hNot := List.lookup_eq_none_iff.mp hFound d hd
            rw [beq_iff_eq.mp hKey] at hNot
            exact bne_iff_ne.mp hNot |> beq_eq_false_iff_ne.mpr
          rw [hOther]
      · rw [List.append_assoc, List.singleton_append]
  simpa [firstOfEach] using hKept []

/-- What a lookup finds is an entry. -/
theorem mem_of_lookup {κ α : Type} [BEq κ] [LawfulBEq κ] {entries : List (κ × α)} {k : κ} {v : α}
    (h : entries.lookup k = some v) : (k, v) ∈ entries := by
  obtain ⟨front, back, rfl, -⟩ := List.lookup_eq_some_iff.mp h
  simp

end Scope

/-- Why a name denotes a type. -/
inductive Justified (tree : Node) (classpath : Classpath) (name : Node) (t : TypeName) : Prop where
  /-- The type is declared in the unit. -/
  | declared {decl : Node}
      (h : Declared (Unit.packageName tree) (tree.field .types) t decl)
  /-- A single-type import of the unit that is not static names the type. -/
  | imported {imp : Node} (h : imp ∈ tree.field .imports) (hSingle : Import.isSingle imp = true)
      (hName : t.text = Import.qualifiedName imp)
  | known (h : classpath.knows t = true)
  /-- The name is the full name of the type by its looks. -/
  | spelled (hLong : 3 ≤ name.nameParts.length) (hLooks : looksQualified name.nameParts = true)
      (hText : t.text = name.dottedName)

/-- The name of the supertype in the clause of a class. -/
def Node.supertypeName? (decl : Node) : Option Node :=
  ((decl.field? .superclass).bind (·.field? .supertype)).bind Node.typeHead?

namespace Scope

variable {tree : Node} {classpath : Classpath} {t : TypeName}

/-- What is recorded about the classes of a scope does not matter to the meaning of a name. -/
theorem resolve_withClasses (s : Scope) {classes : List (TypeName × ClassInfo)}
    (h : classes.map Prod.fst = s.classes.map Prod.fst) :
    { s with classes }.resolve = s.resolve := by
  have hNames (cs : List (TypeName × ClassInfo)) (u : TypeName) :
      cs.any (·.1 == u) = (cs.map Prod.fst).any (· == u) := by simp [Function.comp_def]
  have hKnows : { s with classes }.knows = s.knows := by
    funext u
    rw [knows, knows, hNames, hNames, h]
  funext n
  unfold resolve resolveParts
  rw [hKnows]
  rfl

/-- The types that a unit declares, each with its declaration. -/
theorem declared_of_found (hFine : tree.WellFormed) {decl : Node}
    (h : (t, decl) ∈ declarationsAmong (Unit.packageName tree)
      ((tree.field .types).map fun n => (Field.types, n))) :
    Declared (Unit.packageName tree) (tree.field .types) t decl := by
  rw [declarationsAmong_eq, List.flatMap_map] at h
  obtain ⟨n, hn, hDecl⟩ := List.mem_flatMap.mp h
  exact declared_of_declarations (hFine.of_field hn) hDecl hn

/-- The classes of a scope are declared in the unit, and recorded with the supertype that the scope
finds. -/
theorem exists_of_mem_classes (hFine : tree.WellFormed) {info : ClassInfo}
    (h : (t, info) ∈ (ofUnit tree classpath).classes) :
    ∃ decl, Declared (Unit.packageName tree) (tree.field .types) t decl ∧
      info.extends? = decl.supertypeName?.bind (ofUnit tree classpath).resolve := by
  obtain ⟨⟨u, decl⟩, hFound, hEq⟩ := List.mem_map.mp h
  obtain ⟨rfl, rfl⟩ := Prod.mk.inj hEq
  refine ⟨decl, declared_of_found hFine hFound, ?_⟩
  -- supertypes are looked up before the classes are described
  rw [ofUnit, resolve_withClasses _ (by simp [Function.comp_def])]
  rfl

/-- What exists for a unit is declared there or known. -/
theorem justified_of_knows (hFine : tree.WellFormed) (h : (ofUnit tree classpath).knows t = true)
    (name : Node) : Justified tree classpath name t := by
  rw [knows, Bool.or_eq_true, List.any_eq_true] at h
  rcases h with ⟨⟨u, info⟩, hClass, hEq⟩ | hKnown
  · obtain rfl := beq_iff_eq.mp hEq
    obtain ⟨decl, hDecl, -⟩ := exists_of_mem_classes hFine hClass
    exact .declared hDecl
  · exact .known hKnown

/-- The meaning of a simple name has a reason, by whatever name it is used. -/
theorem justified_of_resolveSimple (hFine : tree.WellFormed) {part : String}
    (h : (ofUnit tree classpath).resolveSimple part = some t) (name : Node) :
    Justified tree classpath name t := by
  rw [resolveSimple_eq] at h
  cases hDeclared : (ofUnit tree classpath).declared.lookup part with
  | some u =>
    obtain rfl : u = t := by simpa [hDeclared] using h
    obtain ⟨⟨v, decl⟩, hFound, hEq⟩ :=
      List.mem_map.mp (firstOfEach_subset _ (mem_of_lookup hDeclared))
    obtain ⟨-, rfl⟩ := Prod.mk.inj hEq
    exact .declared (declared_of_found hFine hFound)
  | none =>
    cases hImported : (ofUnit tree classpath).explicit.lookup part with
    | some u =>
      obtain rfl : u = t := by simpa [hDeclared, hImported] using h
      obtain ⟨imp, hImp, hEq⟩ :=
        List.mem_map.mp (firstOfEach_subset _ (mem_of_lookup hImported))
      obtain ⟨-, rfl⟩ := Prod.mk.inj hEq
      obtain ⟨hImport, hSingle⟩ := List.mem_filter.mp hImp
      exact .imported (List.mem_filter.mp hImport).1 hSingle rfl
    | none =>
      have hFound : ((ofUnit tree classpath).candidates part).find?
          (ofUnit tree classpath).classpath.knows = some t := by
        simpa [hDeclared, hImported] using h
      exact .known (List.find?_some hFound)

/-- The meaning of a name has a reason. -/
theorem justified_of_resolve (hFine : tree.WellFormed) {name : Node}
    (h : (ofUnit tree classpath).resolve name = some t) : Justified tree classpath name t := by
  unfold resolve at h
  rcases hParts : name.nameParts with _ | ⟨head, _ | ⟨next, rest⟩⟩
  · rw [hParts] at h
    cases h
  · rw [hParts] at h
    exact justified_of_resolveSimple hFine h name
  · rw [hParts] at h
    simp only [resolveParts] at h
    split at h
    · rename_i hKnows
      obtain rfl := Option.some.inj h
      exact justified_of_knows hFine hKnows name
    · split at h
      · rename_i u hInner
        obtain rfl := Option.some.inj h
        exact justified_of_knows hFine (Option.filter_eq_some_iff.mp hInner).2 name
      · rw [Option.ite_none_right_eq_some] at h
        obtain ⟨hLooks, hText⟩ := h
        rw [← hParts] at hLooks
        refine .spelled ?_ hLooks ?_
        · unfold looksQualified at hLooks
          split at hLooks
          · cases hLooks
          · simp only [Bool.and_eq_true, decide_eq_true_eq] at hLooks
            exact hLooks.1.1.1
        · rw [← Option.some.inj hText, Node.dottedName, hParts]

end Scope

-- ---------------------------------------------------------------------------
-- Names after attribution
-- ---------------------------------------------------------------------------

namespace Attribution

variable {s : Scope}

/-- A name with a meaning is the node itself, or below it. -/
theorem mem_walkOf_of_typed {k : NodeKind} {cs : List (Field × Node)} {x : Node}
    (hx : x ∈ (Node.branch k cs).walk) (hTyped : IsTyped x) (hName : k.form ≠ .name) :
    x ∈ Node.walkOf cs := by
  rw [Node.walk] at hx
  refine (List.mem_cons.mp hx).resolve_left ?_
  rintro rfl
  obtain ⟨t, ts, hNode⟩ := hTyped
  exact hName (by rw [(Node.branch.inj hNode).1]; rfl)

/-- What stands below attributed children stands below what became of one of them. -/
theorem exists_of_resolvedEach {cs ds : List (Field × Node)} (h : ResolvedEach s cs ds) {x : Node}
    (hx : x ∈ Node.walkOf ds) : ∃ c ∈ cs, ∃ m, Resolved s c.2 m ∧ x ∈ m.walk := by
  induction cs generalizing ds with
  | nil =>
    cases h
    cases hx
  | cons c cs ih =>
    cases h with
    | @cons f n m _ ds hNode hs =>
      rcases List.mem_append.mp hx with hx | hx
      · exact ⟨(f, n), List.mem_cons_self, m, hNode, hx⟩
      · obtain ⟨d, hd, hFound⟩ := ih hs hx
        exact ⟨d, List.mem_cons_of_mem _ hd, hFound⟩

/-- In a statement it may also be below the parts of a divided name. -/
theorem exists_of_resolvedRun {cs ds : List (Field × Node)} (h : ResolvedRun s cs ds) {x : Node}
    (hx : x ∈ Node.walkOf ds) :
    (∃ c ∈ cs, ∃ m, Resolved s c.2 m ∧ x ∈ m.walk) ∨
      ∃ ts t front dot back, Divides s ts t front dot back ∧
        x ∈ [Node.nameOf (some t) front, .token dot, Node.nameOf none back].flatMap Node.walk := by
  induction cs generalizing ds with
  | nil =>
    cases h
    cases hx
  | cons c cs ih =>
    cases h with
    | @cons f n m _ ds hNode _ hs =>
      rcases List.mem_append.mp hx with hx | hx
      · exact Or.inl ⟨(f, n), List.mem_cons_self, m, hNode, hx⟩
      · obtain ⟨d, hd, hFound⟩ | hDivided := ih hs hx
        · exact Or.inl ⟨d, List.mem_cons_of_mem _ hd, hFound⟩
        · exact Or.inr hDivided
    | @divided f ts front back t dot _ ds hDivides hs =>
      have hParts : x ∈ [Node.nameOf (some t) front, .token dot, Node.nameOf none back].flatMap
          Node.walk ∨ x ∈ Node.walkOf ds := by
        simpa [Node.walkOf, or_assoc] using hx
      rcases hParts with hx | hx
      · exact Or.inr ⟨ts, t, front, dot, back, hDivides, hx⟩
      · obtain ⟨d, hd, hFound⟩ | hDivided := ih hs hx
        · exact Or.inl ⟨d, List.mem_cons_of_mem _ hd, hFound⟩
        · exact Or.inr hDivided

/-- Two names are the same only if they denote the same and have the same tokens. -/
theorem nameOf_inj {type type' : Option TypeName} {ts us : List Token}
    (h : Node.nameOf type ts = Node.nameOf type' us) : type = type' ∧ ts = us := by
  refine ⟨by simpa [Node.nameOf] using (Node.branch.inj h).1, ?_⟩
  rw [← Node.tokens_nameOf type ts, h, Node.tokens_nameOf]

/-- Below everything but headers, a name denotes what it means after attribution. -/
theorem meant_of_resolved {n : Node} (hFine : n.WellFormed) (hBare : n.Bare)
    (hForm : n.form ∉ Node.headerForms) {m : Node} (h : Resolved s n m) {t : TypeName}
    {ts : List Token} (hx : Node.nameOf (some t) ts ∈ m.walk) :
    s.resolve (Node.nameOf none ts) = some t := by
  have hTyped : IsTyped (Node.nameOf (some t) ts) := ⟨t, ts, rfl⟩
  induction hFine generalizing m with
  | token t =>
    cases h
    exact absurd hTyped (not_typed_of_bare (.token _) hx)
  | @branch k cs hFills hChildren ih =>
    have hFine : (Node.branch k cs).WellFormed := .branch hFills hChildren
    have hBelow : (∃ c ∈ cs, ∃ m, Resolved s c.2 m ∧ Node.nameOf (some t) ts ∈ m.walk) →
        s.resolve (Node.nameOf none ts) = some t := by
      rintro ⟨c, hc, m, hm, hx⟩
      exact ih c hc (hBare.child hc) (hFine.form_child hForm hc) hm hx
    cases h with
    | name =>
      obtain ⟨us, rfl⟩ := hFine.exists_tokens
      obtain ⟨hDenotes, rfl⟩ := nameOf_inj (eq_nameOf_of_typed hTyped hx)
      exact hDenotes.symm
    | call m cs =>
      -- below a call nothing is attached
      have hIn := mem_walkOf_of_typed hx hTyped (by simp [NodeKind.form])
      rw [Node.walkOf_eq] at hIn
      obtain ⟨c, hc, hIn⟩ := List.mem_flatMap.mp hIn
      exact absurd hTyped (not_typed_of_bare (hBare.child hc) hIn)
    | package | single | collective => simp [Node.form, NodeKind.form, Node.headerForms] at hForm
    | statement hRun =>
      rcases exists_of_resolvedRun hRun (mem_walkOf_of_typed hx hTyped (by simp [NodeKind.form])) with
        hFound | ⟨us, u, front, dot, back, hDivides, hParts⟩
      · exact hBelow hFound
      · obtain ⟨hType, rfl⟩ := nameOf_inj (eq_front_of_typed hTyped hParts)
        rw [hType]
        exact hDivides.denotes
    | branch hk hEach =>
      refine hBelow (exists_of_resolvedEach hEach (mem_walkOf_of_typed hx hTyped ?_))
      rintro hName
      simp [hName] at hk

-- ---------------------------------------------------------------------------
-- Units
-- ---------------------------------------------------------------------------

/-- An attributed child in a field has come of a child in that field. -/
theorem exists_of_filed {cs ds : List (Field × Node)} (h : ResolvedEach s cs ds) {f : Field}
    {m : Node} (hm : m ∈ filed f ds) : ∃ n ∈ filed f cs, Resolved s n m := by
  induction cs generalizing ds with
  | nil =>
    cases h
    cases hm
  | cons c cs ih =>
    cases h with
    | @cons g n m' _ ds hNode hs =>
      rw [filed_cons] at hm ⊢
      split at hm
      · rename_i hField
        rw [if_pos hField]
        rcases List.mem_cons.mp hm with rfl | hm
        · exact ⟨n, List.mem_cons_self, hNode⟩
        · obtain ⟨n', hn', hFound⟩ := ih hs hm
          exact ⟨n', List.mem_cons_of_mem _ hn', hFound⟩
      · rename_i hField
        rw [if_neg hField]
        exact ih hs hm

/-- Each part of an attributed unit has come of a part of the unit, which is no header. -/
theorem exists_of_types {tree unit : Node} (hFine : tree.WellFormed) (hUnit : tree.form = .unit)
    (h : Resolved s tree unit) {part : Node} (hPart : part ∈ unit.field .types) :
    ∃ n ∈ tree.field .types, n.form ∉ Node.headerForms ∧ Resolved s n part := by
  obtain ⟨cs, rfl⟩ := Node.exists_children (k := .unit) rfl hUnit
  cases h with
  | branch _ hEach =>
    obtain ⟨n, hn, hNode⟩ := exists_of_filed hEach hPart
    have hSlot : ⟨.types, .many, memberForms⟩ ∈ NodeKind.unit.slots := by simp [NodeKind.slots]
    obtain ⟨hForm, -⟩ := hFine.filed_many hSlot n hn
    refine ⟨n, hn, ?_, hNode⟩
    revert hForm
    cases n.form <;> simp [memberForms, Node.headerForms]

/-- Every type that a name outside the package and the imports of a unit denotes has a reason, and so
has every supertype that is recorded for a class of the unit. -/
theorem ofUnit_justified {tree : Node} (h : tree.Fresh) (classpath : Classpath) :
    (∀ part ∈ (ofUnit classpath tree).value.field .types, ∀ n ∈ part.walk, ∀ t cs,
        n = .branch (.name (some t)) cs → Justified tree classpath n t) ∧
      ∀ t info, (t, info) ∈ (Scope.ofUnit tree classpath).classes → ∃ decl,
        Declared (Unit.packageName tree) (tree.field .types) t decl ∧
          ∀ u, info.extends? = some u →
            ∃ name, decl.supertypeName? = some name ∧ Justified tree classpath name u := by
  have hFine := h.wellFormed
  refine ⟨?_, ?_⟩
  · rintro part hPart n hn t cs rfl
    obtain ⟨-, hResolved, hAttributed, -⟩ := ofUnit_attaches h classpath
    obtain ⟨o, ho, hForm, hNode⟩ := exists_of_types hFine h.isUnit hResolved hPart
    obtain ⟨ts, rfl⟩ := ((hAttributed.of_field hPart).walk _ hn).exists_tokens
    have hMeant : (Scope.ofUnit tree classpath).resolve (Node.nameOf none ts) = some t :=
      meant_of_resolved (hFine.of_field ho) (h.bare.of_field ho) hForm hNode hn
    refine Scope.justified_of_resolve hFine ?_
    rw [Scope.resolve, ← Node.nameOf, nameParts_nameOf, ← nameParts_nameOf none ts]
    exact hMeant
  · intro t info hClass
    obtain ⟨decl, hDecl, hExtends⟩ := Scope.exists_of_mem_classes hFine hClass
    refine ⟨decl, hDecl, fun u hu => ?_⟩
    rw [hExtends] at hu
    obtain ⟨name, hName, hResolve⟩ := Option.bind_eq_some_iff.mp hu
    exact ⟨name, hName, Scope.justified_of_resolve hFine hResolve⟩

open Draft in
/-- A class with names of every kind: declared, imported, known, spelled in full, and divided. -/
def reasons : Sample := .ofDraft (node "program" [
  importing ["Other", "q"],
  classOf "A" (typeWord "Other" " ") (braced "class_body" [
    classOf "B" (typeWord "A" " ") (braced "class_body" []) "\n  ",
    fieldOf (typeWord "String" "\n  ") "s",
    fieldOf (dottedType "\n  " ["Widget", "acme", "com"]) "w" (accessOf (accessOf (word "A" " ") "B") "c")]
    " " "\n") "\n"]) "\n"

set_option maxRecDepth 100000 in
theorem ofUnit_justified_reasons : ∃ tree, reasons.unit? = some tree ∧ tree.Fresh ∧
    (((ofUnit ⟨defaultStubs⟩ tree).value.bodyNames.filterMap Node.denoted?).map TypeName.text =
      ["q.Other", "A", "java.lang.String", "com.acme.Widget", "A.B"]) ∧
    ((∀ part ∈ (ofUnit ⟨defaultStubs⟩ tree).value.field .types, ∀ n ∈ part.walk, ∀ t cs,
        n = .branch (.name (some t)) cs → Justified tree ⟨defaultStubs⟩ n t) ∧
      ∀ t info, (t, info) ∈ (Scope.ofUnit tree ⟨defaultStubs⟩).classes → ∃ decl,
        Declared (Unit.packageName tree) (tree.field .types) t decl ∧
          ∀ u, info.extends? = some u →
            ∃ name, decl.supertypeName? = some name ∧ Justified tree ⟨defaultStubs⟩ name u) := by
  have hSome : reasons.unit?.map (fun tree =>
      ((ofUnit ⟨defaultStubs⟩ tree).value.bodyNames.filterMap Node.denoted?).map TypeName.text) =
      some ["q.Other", "A", "java.lang.String", "com.acme.Widget", "A.B"] := by
    decide +kernel
  obtain ⟨tree, hTree, hNames⟩ := Option.map_eq_some_iff.mp hSome
  have hFresh := Parsing.fresh_of_sample (by decide +kernel) hTree
  exact ⟨tree, hTree, hFresh, hNames, ofUnit_justified hFresh ⟨defaultStubs⟩⟩

end Attribution

end SourceMigration
