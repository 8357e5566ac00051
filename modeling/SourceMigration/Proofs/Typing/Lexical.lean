import SourceMigration.Editing.Imports
import SourceMigration.Proofs.Editing.Serving
import SourceMigration.Proofs.Typing.Justified
import SourceMigration.Proofs.Typing.Placed

/-!
# SourceMigration — type names by lexical scope

What a simple type name should mean is told by what stands around it: the member types of the classes
around it and the local classes of the blocks around it, the innermost first, then the types of the
unit, and only then imports and packages. The scope of a unit knows all the types that its classes
declare under one table for the whole unit, wherever the name stands, and no local classes. Both agree
where no type of the name is out of sight or local, and the unit declares it only once.

## Results

* `declared_of_inSight` — the types in sight that have a full name are declared in the unit.
* `resolves_lexically`  — a simple name in a place gets the type that lexical scope gives it.
-/

namespace SourceMigration

-- ---------------------------------------------------------------------------
-- Types in sight
-- ---------------------------------------------------------------------------

/-- The type declarations among some nodes, with the full names that `full` gives them. -/
def typesAmong (full : String → Option TypeName) (ns : List Node) :
    List (String × Option TypeName) :=
  (ns.filter fun d => d.form = .typeDeclaration).map fun d => (d.declaredName, full d.declaredName)

/-- The types that a node declares for all that is in it: those of a unit and the members of a class
belong to an owner, the local classes of a block to none. -/
def Node.ownTypes (owner : Option String) (n : Node) : List (String × Option TypeName) :=
  let full name := owner.map fun o => TypeName.member o name
  match n.form with
  | .unit => typesAmong full (n.field .types)
  | .classBody => typesAmong full (n.field .members)
  | .block => typesAmong (fun _ => none) ((n.field .statements).flatMap (·.field .elements))
  | _ => []

namespace Context

/-- What owns the member types inside a layer of a unit. What is declared in a method, in a statement
or before the body of a class has no owner, and so no full name. -/
def ownerWithin (owner : Option String) (l : Layer) (n : Node) : Option String :=
  match l.kind with
  | .unit | .classBody => owner
  | .typeDeclaration =>
    if l.field = .body then owner.map fun o => (TypeName.member o (l.fill n).declaredName).text
    else none
  | _ => none

/-- The types in sight of a place, the innermost first, each with its full name if it has one. -/
def inSight (owner : Option String) : Context → Node → List (String × Option TypeName)
  | [], _ => []
  | l :: c, n =>
    inSight (ownerWithin owner l (fill c n)) c n ++ (l.fill (fill c n)).ownTypes owner

end Context

namespace Scope

/-- What a simple name means in a place of a unit by lexical scope: the innermost type of that name in
sight, or else what a single-type import, the own package, the packages imported on demand or the
language's own package know, in this order. -/
def lexical (unit : Node) (classpath : Classpath) (c : Context) (n : Node) (x : String) :
    Option TypeName :=
  match (c.inSight (some (Unit.packageName unit)) n).lookup x with
  | some t => t
  | none =>
    (((unit.field .imports).filter Import.isSingle).map fun i =>
        (Import.simpleName i, (⟨Import.qualifiedName i⟩ : TypeName))).lookup x <|>
      (TypeName.member (Unit.packageName unit) x ::
        (((unit.field .imports).filter fun i => !Import.isStatic i && Import.isWildcard i).map
          fun i => ⟨Import.qualifiedName i ++ "." ++ x⟩) ++
        [TypeName.member languagePackage x]).find? classpath.knows

end Scope

namespace Context

variable {c : Context} {n : Node} {x owner : String} {t : TypeName}

theorem ownerWithin_none (l : Layer) (n : Node) : ownerWithin none l n = none := by
  unfold ownerWithin
  split
  · rfl
  · rfl
  · split <;> rfl
  · rfl

theorem mem_typesAmong {full : String → Option TypeName} {ns : List Node} {t : Option TypeName}
    (h : (x, t) ∈ typesAmong full ns) :
    ∃ d ∈ ns, d.form = .typeDeclaration ∧ d.declaredName = x ∧ t = full x := by
  obtain ⟨d, hd, hEq⟩ := List.mem_map.mp h
  obtain ⟨hMem, hForm⟩ := List.mem_filter.mp hd
  obtain ⟨rfl, rfl⟩ := Prod.mk.inj hEq
  exact ⟨d, hMem, by simpa using hForm, rfl, rfl⟩

/-- Where nothing has an owner, no type in sight has a full name. -/
theorem inSight_none : (x, some t) ∉ inSight none c n := by
  induction c with
  | nil => simp [inSight]
  | cons l c ih =>
    rw [inSight, ownerWithin_none]
    intro h
    rcases List.mem_append.mp h with h | h
    · exact ih h
    · unfold Node.ownTypes at h
      simp only [Option.map_none] at h
      split at h
      · obtain ⟨d, -, -, -, hFull⟩ := mem_typesAmong h
        cases hFull
      · obtain ⟨d, -, -, -, hFull⟩ := mem_typesAmong h
        cases hFull
      · obtain ⟨d, -, -, -, hFull⟩ := mem_typesAmong h
        cases hFull
      · cases h

/-- The nodes among which a unit or a class declares its types. -/
def membersOf (n : Node) : List Node :=
  match n.form with
  | .unit => n.field .types
  | .classBody => n.field .members
  | .typeDeclaration => n.members
  | _ => []

/-- The owner of what a node declares among these. -/
def ownerOf (owner : String) (n : Node) : String :=
  if n.form = .typeDeclaration then (TypeName.member owner n.declaredName).text else owner

theorem not_declared_nil {decl : Node} : ¬ Declared owner [] t decl := by
  intro h
  cases h with
  | here h => cases h
  | inside h => cases h

/-- What fills a layer is filed under its field. -/
theorem mem_field_fill (l : Layer) (n : Node) : n ∈ (l.fill n).field l.field := by
  rw [Layer.fill, Node.field_branch]
  exact List.mem_filterMap.mpr ⟨_, mem_children l n, if_pos rfl⟩

/-- The slot that what fills a layer stands in. -/
theorem exists_slot {l : Layer} (h : (l.fill n).WellFormed) :
    ∃ s ∈ l.kind.slots, l.field = s.field ∧ n.form ∈ s.forms :=
  h.fills.mem (List.mem_map_of_mem (mem_children l n))

theorem membersOf_eq_nil (h : n.form ∉ [Form.unit, .classBody, .typeDeclaration]) :
    membersOf n = [] := by
  unfold membersOf
  split
  all_goals first | rfl | simp_all

/-- A class is declared among the members of a unit or of the body of a class, and neither of these
stands directly in the other. -/
theorem forms_of_members {k : NodeKind} (hk : k = .unit ∨ k = .classBody) :
    ∀ s ∈ k.slots, .unit ∉ s.forms ∧ .classBody ∉ s.forms ∧
      (.typeDeclaration ∈ s.forms → s.field = if k = .unit then .types else .members) := by
  rcases hk with rfl | rfl <;> decide

/-- The body of a class holds its members. -/
theorem members_of_body {l : Layer} (hFine : (l.fill n).WellFormed) (hKind : l.kind = .typeDeclaration)
    (hField : l.field = .body) : n.form = .classBody ∧ (l.fill n).members = n.field .members := by
  obtain ⟨k, front, f, back⟩ := l
  obtain rfl : k = .typeDeclaration := hKind
  obtain rfl : f = .body := hField
  have hFiled := mem_field_fill ⟨.typeDeclaration, front, .body, back⟩ n
  obtain ⟨body, hBody, hForm, -⟩ :=
    hFine.exists_filed_one (f := .body) [.classBody] (by simp [NodeKind.slots])
  rw [Layer.fill, Node.field_branch, hBody, List.mem_singleton] at hFiled
  subst hFiled
  refine ⟨List.mem_singleton.mp hForm, ?_⟩
  rw [Node.members, Node.field?, Layer.fill, Node.field_branch]
  exact congrArg (fun ns => ((ns.head?).map (·.field .members)).getD []) hBody

/-- What a child with an owner declares, the node around it declares through the child. -/
theorem declared_of_child {l : Layer} {inner : String} {decl : Node} (hFine : (l.fill n).WellFormed)
    (hOwner : ownerWithin (some owner) l n = some inner)
    (h : Declared (ownerOf inner n) (membersOf n) t decl) :
    Declared (ownerOf owner (l.fill n)) (membersOf (l.fill n)) t decl := by
  obtain ⟨slot, hSlot, hField, hForm⟩ := exists_slot hFine
  have hFiled := mem_field_fill l n
  have hMembers (hk : l.kind = .unit ∨ l.kind = .classBody) (hSelf : ownerOf owner (l.fill n) = inner)
      (hAll : membersOf (l.fill n) = (l.fill n).field (if l.kind = .unit then .types else .members)) :
      Declared (ownerOf owner (l.fill n)) (membersOf (l.fill n)) t decl := by
    obtain ⟨hNoUnit, hNoBody, hType⟩ := forms_of_members hk slot hSlot
    by_cases hDeclares : n.form = .typeDeclaration
    · rw [hField, hType (hDeclares ▸ hForm), ← hAll] at hFiled
      refine .inside hFiled hDeclares ?_
      rw [ownerOf, if_pos hDeclares, membersOf, hDeclares] at h
      rwa [hSelf]
    · refine absurd (membersOf_eq_nil ?_ ▸ h) not_declared_nil
      simp only [List.mem_cons, List.not_mem_nil, or_false, not_or]
      exact ⟨fun h => hNoUnit (h ▸ hForm), fun h => hNoBody (h ▸ hForm), hDeclares⟩
  obtain ⟨k, front, f, back⟩ := l
  cases k with
  | unit => exact hMembers (Or.inl rfl) (Option.some.inj hOwner) rfl
  | classBody => exact hMembers (Or.inr rfl) (Option.some.inj hOwner) rfl
  | typeDeclaration =>
    have hBody : f = .body := by
      by_contra hOther
      rw [ownerWithin, if_neg hOther] at hOwner
      cases hOwner
    subst hBody
    rw [ownerWithin, if_pos rfl] at hOwner
    obtain rfl := Option.some.inj hOwner
    obtain ⟨hBodyForm, hAll⟩ := members_of_body hFine rfl rfl
    rw [ownerOf, hBodyForm, membersOf, hBodyForm, ← hAll] at h
    exact h
  | _ => cases hOwner

/-- A type in sight that has a full name is declared among the members of the unit or class that has
the place in it. -/
theorem declared_of_mem_inSight (hFine : (fill c n).WellFormed)
    (h : (x, some t) ∈ inSight (some owner) c n) :
    ∃ decl, decl.declaredName = x ∧
      Declared (ownerOf owner (fill c n)) (membersOf (fill c n)) t decl := by
  induction c generalizing owner with
  | nil => simp [inSight] at h
  | cons l c ih =>
    rw [fill_cons] at hFine ⊢
    rw [inSight] at h
    rcases List.mem_append.mp h with h | h
    · cases hOwner : ownerWithin (some owner) l (fill c n) with
      | none => exact absurd (hOwner ▸ h) inSight_none
      | some inner =>
        rw [hOwner] at h
        obtain ⟨decl, hName, hDeclared⟩ := ih (hFine.child (mem_children l _)) h
        exact ⟨decl, hName, declared_of_child hFine hOwner hDeclared⟩
    · unfold Node.ownTypes at h
      simp only [Option.map_some] at h
      split at h
      · rename_i hUnit
        obtain ⟨d, hd, hForm, rfl, hFull⟩ := mem_typesAmong h
        obtain rfl := Option.some.inj hFull
        refine ⟨d, rfl, ?_⟩
        rw [ownerOf, hUnit, membersOf, hUnit]
        exact .here hd hForm
      · rename_i hBody
        obtain ⟨d, hd, hForm, rfl, hFull⟩ := mem_typesAmong h
        obtain rfl := Option.some.inj hFull
        refine ⟨d, rfl, ?_⟩
        rw [ownerOf, hBody, membersOf, hBody]
        exact .here hd hForm
      · obtain ⟨d, -, -, -, hFull⟩ := mem_typesAmong h
        cases hFull
      · cases h

end Context

namespace Scope

variable {tree : Node} {classpath : Classpath} {c : Context} {n : Node} {x : String} {t : TypeName}

/-- The types in sight that have a full name are declared in the unit. -/
theorem declared_of_inSight (hFine : (c.fill n).WellFormed) (hUnit : (c.fill n).form = .unit)
    (h : (x, some t) ∈ c.inSight (some (Unit.packageName (c.fill n))) n) :
    ∃ decl, decl.declaredName = x ∧
      Declared (Unit.packageName (c.fill n)) ((c.fill n).field .types) t decl := by
  obtain ⟨decl, hName, hDeclared⟩ := Context.declared_of_mem_inSight hFine h
  rw [Context.ownerOf, hUnit, Context.membersOf, hUnit] at hDeclared
  exact ⟨decl, hName, hDeclared⟩

-- ---------------------------------------------------------------------------
-- The table of declared types
-- ---------------------------------------------------------------------------

/-- What is declared among some members is among the declarations of one of them. -/
theorem declarations_of_declared {owner : String} {members : List Node} {decl : Node}
    (h : Declared owner members t decl) (hFine : ∀ m ∈ members, m.WellFormed) :
    ∃ m ∈ members, (t, decl) ∈ declarations owner m := by
  induction h with
  | @here owner members decl hMem hForm =>
    obtain ⟨cs, rfl⟩ := Node.exists_children (k := .typeDeclaration) rfl hForm
    exact ⟨_, hMem, List.mem_cons_self⟩
  | @inside owner members outer decl t hOuter hForm _ ih =>
    obtain ⟨cs, rfl⟩ := Node.exists_children (k := .typeDeclaration) rfl hForm
    obtain ⟨p, hEq, hParts⟩ := (hFine _ hOuter).exists_classParts
    refine ⟨_, hOuter, ?_⟩
    rw [hEq] at ih ⊢
    rw [ClassParts.members_toNode] at ih
    obtain ⟨m, hm, hDecl⟩ := ih fun m hm => hParts.inner m (by simp [ClassParts.inner, hm])
    rw [ClassParts.toNode, declarations, ← ClassParts.toNode, declarationsInBody_children]
    exact List.mem_cons_of_mem _ (List.mem_flatMap.mpr ⟨m, hm, hDecl⟩)

/-- What is declared in a unit is found by going through its types. -/
theorem found_of_declared (hFine : tree.WellFormed) {decl : Node}
    (h : Declared (Unit.packageName tree) (tree.field .types) t decl) :
    (t, decl) ∈ declarationsAmong (Unit.packageName tree)
      ((tree.field .types).map fun n => (Field.types, n)) := by
  obtain ⟨m, hm, hDecl⟩ := declarations_of_declared h fun m hm => hFine.of_field hm
  rw [declarationsAmong_eq, List.flatMap_map]
  exact List.mem_flatMap.mpr ⟨m, hm, hDecl⟩

variable (classpath) in
/-- The table of declared types has a type for each name that is declared in the unit. -/
theorem lookup_declared_ne_none (hFine : tree.WellFormed) {decl : Node}
    (h : Declared (Unit.packageName tree) (tree.field .types) t decl) :
    (ofUnit tree classpath).declared.lookup decl.declaredName ≠ none := by
  show (firstOfEach _).lookup _ ≠ none
  rw [lookup_firstOfEach]
  intro hNone
  simpa using List.lookup_eq_none_iff.mp hNone _ (List.mem_map_of_mem (found_of_declared hFine h))

/-- What the table of declared types says is declared in the unit. -/
theorem declared_of_lookup (hFine : tree.WellFormed)
    (h : (ofUnit tree classpath).declared.lookup x = some t) :
    ∃ decl, decl.declaredName = x ∧
      Declared (Unit.packageName tree) (tree.field .types) t decl := by
  obtain ⟨⟨u, decl⟩, hFound, hEq⟩ := List.mem_map.mp (firstOfEach_subset _ (mem_of_lookup h))
  obtain ⟨rfl, rfl⟩ := Prod.mk.inj hEq
  exact ⟨decl, rfl, declared_of_found hFine hFound⟩

/-- Where the types of a name that the unit declares are one at most and in sight, and no local class
of that name is in sight, a simple name means what lexical scope says. -/
theorem resolveSimple_eq_lexical (hFine : (c.fill n).WellFormed) (hUnit : (c.fill n).form = .unit)
    (hOne : ∀ t t' decl decl', decl.declaredName = x → decl'.declaredName = x →
      Declared (Unit.packageName (c.fill n)) ((c.fill n).field .types) t decl →
      Declared (Unit.packageName (c.fill n)) ((c.fill n).field .types) t' decl' → t = t')
    (hSight : ∀ t decl, decl.declaredName = x →
      Declared (Unit.packageName (c.fill n)) ((c.fill n).field .types) t decl →
      (x, some t) ∈ c.inSight (some (Unit.packageName (c.fill n))) n)
    (hLocal : (x, none) ∉ c.inSight (some (Unit.packageName (c.fill n))) n) :
    (ofUnit (c.fill n) classpath).resolveSimple x = lexical (c.fill n) classpath c n x := by
  have hImports : (ofUnit (c.fill n) classpath).explicit.lookup x =
      ((((c.fill n).field .imports).filter Import.isSingle).map fun i =>
        (Import.simpleName i, (⟨Import.qualifiedName i⟩ : TypeName))).lookup x := by
    show (firstOfEach _).lookup x = _
    rw [lookup_firstOfEach, List.filter_filter]
    congr 2
    refine List.filter_congr fun i _ => ?_
    simp only [Import.isSingle]
    cases Import.isStatic i <;> simp
  have hPackages : (ofUnit (c.fill n) classpath).candidates x =
      TypeName.member (Unit.packageName (c.fill n)) x ::
        ((((c.fill n).field .imports).filter fun i => !Import.isStatic i && Import.isWildcard i).map
          fun i => ⟨Import.qualifiedName i ++ "." ++ x⟩) ++
        [TypeName.member languagePackage x] := by
    have hOrder : (((c.fill n).field .imports).filter fun i =>
        Import.isWildcard i && !Import.isStatic i) =
        ((c.fill n).field .imports).filter fun i => !Import.isStatic i && Import.isWildcard i :=
      List.filter_congr fun i _ => Bool.and_comm _ _
    simp only [candidates, ofUnit, List.filter_filter, List.map_map, hOrder]
    rfl
  rw [resolveSimple_eq, hImports, hPackages, lexical]
  cases hFound : (c.inSight (some (Unit.packageName (c.fill n))) n).lookup x with
  | some full =>
    obtain ⟨front, back, hSplit, -⟩ := List.lookup_eq_some_iff.mp hFound
    have hMem : (x, full) ∈ c.inSight (some (Unit.packageName (c.fill n))) n := hSplit ▸ by simp
    cases full with
    | none => exact absurd hMem hLocal
    | some t =>
      obtain ⟨decl, hName, hDeclared⟩ := declared_of_inSight hFine hUnit hMem
      obtain ⟨u, hTable⟩ := Option.ne_none_iff_exists'.mp
        (hName ▸ lookup_declared_ne_none classpath hFine hDeclared)
      obtain ⟨decl', hName', hDeclared'⟩ := declared_of_lookup hFine hTable
      rw [hTable, hOne t u decl decl' hName hName' hDeclared hDeclared']
      rfl
  | none =>
    cases hTable : (ofUnit (c.fill n) classpath).declared.lookup x with
    | some t =>
      obtain ⟨decl, hName, hDeclared⟩ := declared_of_lookup hFine hTable
      simpa using List.lookup_eq_none_iff.mp hFound _ (hSight t decl hName hDeclared)
    | none => rfl

end Scope

namespace Attribution

variable {classpath : Classpath} {tree : Node} {l : Layer} {c : Context} {n : Node} {x : String}

-- ---------------------------------------------------------------------------
-- Names in their places
-- ---------------------------------------------------------------------------

theorem parts_of_simple (h : n.simpleNameOf? = some x) : n.nameParts = [x] := by
  unfold Node.simpleNameOf? at h
  split at h
  · split at h
    · rename_i hParts
      rw [hParts, Option.some.inj h]
    · cases h
  · cases h

variable (classpath) in
/-- A simple name in the types of a unit is given what its spelling means, and stays where it is. -/
theorem ofUnit_simple (hFine : tree.WellFormed) (hUnit : tree.form = .unit) (hBare : tree.Bare)
    (hFill : tree = Context.fill (l :: c) n) (hTypes : l.field = .types)
    (hName : n.simpleNameOf? = some x) :
    ∃ d cs, n = .branch (.name none) cs ∧ List.Forall₂ Layer.Attributed (l :: c) d ∧
      (ofUnit classpath tree).value = Context.fill d
        (.branch (.name ((Scope.ofUnit tree classpath).resolveSimple x)) cs) := by
  have hSelf : n.Bare := by
    rw [hFill] at hBare
    exact Context.inherit hBare fun k cs h d hd => h.child hd
  have hKind : ∃ cs, n = .branch (.name none) cs := by
    cases hSelf with
    | token t => cases hName
    | @branch k cs hKind _ =>
      cases k with
      | name t =>
        obtain rfl := Option.isNone_iff_eq_none.mp hKind
        exact ⟨cs, rfl⟩
      | _ => cases hName
  obtain ⟨cs, rfl⟩ := hKind
  have hParts := parts_of_simple hName
  have hBecomes (s : Surroundings) (b : Bool) (hScope : s.scope = Scope.ofUnit tree classpath) :
      (ofNode s b (.branch (.name none) cs)).value =
        [.branch (.name ((Scope.ofUnit tree classpath).resolveSimple x)) cs] := by
    rw [ofNode, ofName, hScope]
    simp only [hParts, Scope.resolveParts]
    cases (Scope.ofUnit tree classpath).resolveSimple x <;> simp
  obtain ⟨d, hAll, hValue⟩ := ofUnit_fill classpath hFill hFine hUnit hTypes
    (n := .branch (.name none) cs) (by simp [Node.form, NodeKind.form]) (fun ds hEq => by cases hEq)
    (hBecomes _ _ (scope_within _ _ _))
  exact ⟨d, cs, rfl, hAll, hValue⟩

/-- A name in the types of a unit is one of its names. -/
theorem mem_bodyNames_fill {d : Context} (hAll : List.Forall₂ Layer.Attributed (l :: c) d)
    (hTypes : l.field = .types) {m : Node} (hForm : m.form = .name) :
    m ∈ (Context.fill d m).bodyNames := by
  cases hAll with
  | @cons _ l' _ d hLayer _ =>
    refine Node.mem_bodyNames.mpr ⟨⟨Context.fill d m, ?_, Context.mem_walk_fill d m⟩, hForm⟩
    rw [← hTypes, ← hLayer.field]
    exact Context.mem_field_fill l' _

variable (classpath) in
/-- A simple name in the types of a unit gets the type that lexical scope gives it, and an import of
that type counts as referenced, provided that the unit declares at most one type of the name, which is
in sight of it, and that no local class of the name is in sight. -/
theorem resolves_lexically (h : tree.Fresh)
    (hFill : tree = Context.fill (l :: c) n) (hTypes : l.field = .types)
    (hName : n.simpleNameOf? = some x)
    (hOne : ∀ t t' decl decl', decl.declaredName = x → decl'.declaredName = x →
      Declared (Unit.packageName tree) (tree.field .types) t decl →
      Declared (Unit.packageName tree) (tree.field .types) t' decl' → t = t')
    (hSight : ∀ t decl, decl.declaredName = x →
      Declared (Unit.packageName tree) (tree.field .types) t decl →
      (x, some t) ∈ Context.inSight (some (Unit.packageName tree)) (l :: c) n)
    (hLocal : (x, none) ∉ Context.inSight (some (Unit.packageName tree)) (l :: c) n) :
    ∃ d cs, n = .branch (.name none) cs ∧ List.Forall₂ Layer.Attributed (l :: c) d ∧
      (ofUnit classpath tree).value = Context.fill d
        (.branch (.name (Scope.lexical tree classpath (l :: c) n x)) cs) ∧
      ∀ t, Scope.lexical tree classpath (l :: c) n x = some t →
        Imports.isReferenced (ofUnit classpath tree).value t = true ∧
        Imports.remove (ofUnit classpath tree).value t =
          Imports.unchanged (ofUnit classpath tree).value := by
  have hFine := h.wellFormed
  have hUnit := h.isUnit
  obtain ⟨d, cs, rfl, hAll, hValue⟩ := ofUnit_simple classpath hFine hUnit
    h.bare hFill hTypes hName
  have hMeaning : (Scope.ofUnit tree classpath).resolveSimple x =
      Scope.lexical tree classpath (l :: c) (.branch (.name none) cs) x := by
    subst hFill
    exact Scope.resolveSimple_eq_lexical hFine hUnit hOne hSight hLocal
  rw [hMeaning] at hValue
  refine ⟨d, cs, rfl, hAll, hValue, fun t ht => ?_⟩
  have hReferenced : Imports.isReferenced (ofUnit classpath tree).value t = true := by
    rw [hValue, ht]
    refine List.any_eq_true.mpr ⟨_, mem_bodyNames_fill hAll hTypes rfl, ?_⟩
    have hParts : (Node.branch (.name (some t)) cs).nameParts = [x] := parts_of_simple hName
    simp [hParts, Node.denoted?]
  exact ⟨hReferenced, Imports.remove_eq_unchanged (Or.inl hReferenced)⟩

/-- Whether a place in the types of a unit has a simple name. -/
def namedInTypes (x : String) (c : Context) (n : Node) : Bool :=
  c.head?.any (fun l => l.field = .types) && n.simpleNameOf? == some x

theorem exists_of_namedInTypes {c : Context} (h : namedInTypes x c n = true) :
    ∃ l c', c = l :: c' ∧ l.field = .types ∧ n.simpleNameOf? = some x := by
  cases c with
  | nil => simp [namedInTypes] at h
  | cons l c =>
    simp only [namedInTypes, List.head?_cons, Option.any_some, Bool.and_eq_true, decide_eq_true_eq,
      beq_iff_eq] at h
    exact ⟨l, c, rfl, h.1, h.2⟩

open Draft in
/-- A class with a member type that hides an import. -/
def hiddenImport : Sample := .ofDraft (node "program" [
  importing ["Layout", "log4j", "apache", "org"],
  classOf "A" none (braced "class_body" [
    classOf "Layout" none (braced "class_body" []) " ",
    fieldOf (typeWord "Layout" " ") "b"]) "\n"]) "\n"

/-- Whether lexical scope gives a simple name in a place a type, and the unit declares no other of that
name. -/
def clearlyIn (tree : Node) (x : String) (t : TypeName) (c : Context) (n : Node) : Bool :=
  namedInTypes x c n && Scope.lexical tree ⟨defaultStubs⟩ c n x == some t &&
    (Scope.declarationsAmong (Unit.packageName tree)
        ((tree.field .types).map fun n => (Field.types, n))).all
      (fun d => d.2.declaredName != x || d.1 == t) &&
    (c.inSight (some (Unit.packageName tree)) n).contains (x, some t) &&
    !(c.inSight (some (Unit.packageName tree)) n).contains (x, none)

set_option maxRecDepth 100000 in
theorem resolves_lexically_hiddenImport : ∃ tree, hiddenImport.unit? = some tree ∧ tree.Fresh ∧
    ∃ d cs, (ofUnit ⟨defaultStubs⟩ tree).value = Context.fill d
        (.branch (.name (some ⟨"A.Layout"⟩)) cs) ∧
      Imports.isReferenced (ofUnit ⟨defaultStubs⟩ tree).value ⟨"A.Layout"⟩ = true := by
  have hSome : (hiddenImport.unit?.map fun tree =>
      (Context.places tree).any fun p => clearlyIn tree "Layout" ⟨"A.Layout"⟩ p.1 p.2) =
        some true := by decide +kernel
  obtain ⟨tree, hTree, hSome⟩ := Option.map_eq_some_iff.mp hSome
  have hFresh := Parsing.fresh_of_sample (by decide +kernel) hTree
  obtain ⟨⟨c, n⟩, hPlace, hClear⟩ := List.any_eq_true.mp hSome
  simp only [clearlyIn, Bool.and_eq_true, beq_iff_eq, List.contains_iff_mem,
    Bool.not_eq_true', List.all_eq_true] at hClear
  obtain ⟨⟨⟨⟨hNamed, hLexical⟩, hAll⟩, hSight⟩, hLocal⟩ := hClear
  obtain ⟨l, c, rfl, hTypes, hName⟩ := exists_of_namedInTypes hNamed
  have hOnly (t : TypeName) (decl : Node) (hDecl : decl.declaredName = "Layout")
      (h : Declared (Unit.packageName tree) (tree.field .types) t decl) : t = ⟨"A.Layout"⟩ := by
    have hFound := hAll _ (Scope.found_of_declared hFresh.wellFormed h)
    simpa [hDecl] using hFound
  obtain ⟨d, cs, -, -, hValue, hReferenced⟩ :=
    resolves_lexically ⟨defaultStubs⟩ hFresh (Context.fill_of_mem_places hPlace).symm
      hTypes hName
      (fun t t' decl decl' hDecl hDecl' h h' =>
        (hOnly t decl hDecl h).trans (hOnly t' decl' hDecl' h').symm)
      (fun t decl hDecl h => (hOnly t decl hDecl h) ▸ hSight)
      (fun hMem => by simp [hMem] at hLocal)
  rw [hLexical] at hValue
  exact ⟨tree, hTree, hFresh, d, cs, hValue, (hReferenced _ hLexical).1⟩

end Attribution

end SourceMigration
