import SourceMigration.Proofs.Typing.Balanced
import SourceMigration.Proofs.Typing.Justified
import SourceMigration.Proofs.Typing.Placed

/-!
# SourceMigration — attribution without layout

What attribution finds out depends on the kinds and the spellings of the tokens and on nothing else
about them: stripping a tree of its blanks, comments and places before attribution or after it is the
same. The scope of a unit does not even depend on what stands in blocks, for fields, methods and member
types are declared outside of them.

## Results

* `scope_strip`  — a unit has the scope of the unit without layout and without the insides of blocks.
* `ofUnit_plain` — attribution and stripping a unit of its layout commute.
-/

namespace SourceMigration

/-- A token without its trivia and its place. -/
def Token.plain (t : Token) : Token := { kind := t.kind, text := t.text }

namespace Node

mutual

/-- A node without the layout of its tokens; if `shut` holds, also without what stands in its blocks. -/
def strip (shut : Bool) : Node → Node
  | .token t => .token t.plain
  | .branch k cs => .branch k (if shut ∧ k = .block then [] else stripIn shut cs)

/-- The same of every child. -/
def stripIn (shut : Bool) : List (Field × Node) → List (Field × Node)
  | [] => []
  | (f, n) :: cs => (f, strip shut n) :: stripIn shut cs

end

/-- A node without the layout of its tokens. -/
abbrev plain (n : Node) : Node := n.strip false

variable {shut : Bool}

theorem stripIn_eq (shut : Bool) (cs : List (Field × Node)) :
    stripIn shut cs = cs.map fun c => (c.1, c.2.strip shut) := by
  induction cs with
  | nil => rfl
  | cons c cs ih => rw [stripIn, ih, List.map_cons]

@[simp] theorem strip_token (t : Token) : (Node.token t).strip shut = .token t.plain := rfl

theorem strip_branch {k : NodeKind} (h : ¬ (shut = true ∧ k = .block)) (cs : List (Field × Node)) :
    (Node.branch k cs).strip shut = .branch k (cs.map fun c => (c.1, c.2.strip shut)) := by
  rw [strip, if_neg h, stripIn_eq]

theorem open_branch (k : NodeKind) (cs : List (Field × Node)) :
    (Node.branch k cs).strip false = .branch k (cs.map fun c => (c.1, c.2.strip false)) :=
  strip_branch (by simp) cs

@[simp] theorem form_strip (n : Node) : (n.strip shut).form = n.form := by
  cases n <;> rfl

theorem open_of_form {n : Node} (h : n.form ≠ .block) : ¬ (shut = true ∧ n.form = .block) :=
  fun hBoth => h hBoth.2

/-- The fields of a node that is no block, or not shut. -/
theorem field_strip {n : Node} (h : ¬ (shut = true ∧ n.form = .block)) (f : Field) :
    (n.strip shut).field f = (n.field f).map (strip shut) := by
  cases n with
  | token t => rfl
  | branch k cs =>
    have hKind : ¬ (shut = true ∧ k = .block) := fun hBoth => h ⟨hBoth.1, by rw [hBoth.2]; rfl⟩
    rw [strip_branch hKind, field_branch, field_branch, filed_map_snd]

theorem first_strip {n : Node} (h : ¬ (shut = true ∧ n.form = .block)) (f : Field) :
    (n.strip shut).field? f = (n.field? f).map (strip shut) := by
  rw [field?, field?, field_strip h, List.head?_map]

theorem tokenAt_strip {n : Node} (h : ¬ (shut = true ∧ n.form = .block)) (f : Field) :
    (n.strip shut).tokenAt? f = (n.tokenAt? f).map Token.plain := by
  rw [tokenAt?, tokenAt?, first_strip h]
  cases n.field? f with
  | none => rfl
  | some m => cases m <;> rfl

theorem parts_strip {n : Node} (h : ¬ (shut = true ∧ n.form = .block)) :
    (n.strip shut).nameParts = n.nameParts := by
  rw [nameParts, nameParts, field_strip h, List.filterMap_map]
  refine List.filterMap_congr fun m _ => ?_
  cases m <;> rfl

theorem declaredName_strip {n : Node} (h : ¬ (shut = true ∧ n.form = .block)) :
    (n.strip shut).declaredName = n.declaredName := by
  rw [declaredName, declaredName, tokenAt_strip h]
  cases n.tokenAt? .name <;> rfl

@[simp] theorem isToken_strip (n : Node) (text : String) :
    (n.strip shut).isToken text = n.isToken text := by
  cases n <;> rfl

@[simp] theorem endsDeclarator_strip (n : Node) :
    Variables.endsDeclarator (n.strip shut) = Variables.endsDeclarator n := by
  cases n <;> rfl

@[simp] theorem simpleNameOf_strip (n : Node) : (n.strip shut).simpleNameOf? = n.simpleNameOf? := by
  cases n with
  | token t => rfl
  | branch k cs =>
    cases k with
    | name t =>
      have hParts := @parts_strip shut (.branch (.name t) cs)
        (open_of_form (by simp [form, NodeKind.form]))
      rw [strip_branch (by simp)] at hParts ⊢
      simp only [simpleNameOf?, hParts]
    | _ => rfl

theorem typeHead_strip (n : Node) : (n.strip shut).typeHead? = n.typeHead?.map (strip shut) := by
  cases n with
  | token t => rfl
  | branch k cs =>
    cases k with
    | parameterized =>
      have hBase := @first_strip shut (.branch .parameterized cs)
        (open_of_form (by simp [form, NodeKind.form])) .base
      rw [strip_branch (by simp)] at hBase ⊢
      exact hBase
    | _ => rfl

/-- The name of a type is a name. -/
theorem WellFormed.form_typeHead {n head : Node} (h : n.WellFormed) (hHead : n.typeHead? = some head) :
    head.form = .name := by
  cases n with
  | token t => cases hHead
  | branch k cs =>
    cases k with
    | name t => rw [← Option.some.inj hHead]; rfl
    | parameterized =>
      obtain ⟨base, hBase, hForm, -⟩ :=
        h.exists_filed_one (f := .base) [.name] (by simp [NodeKind.slots])
      have hFirst : (Node.branch .parameterized cs).field? .base = some base := by
        rw [field?, field_branch, hBase]
        rfl
      obtain rfl := Option.some.inj (hFirst.symm.trans hHead)
      exact List.mem_singleton.mp hForm
    | _ => cases hHead

/-- A node stays well-formed without layout. -/
theorem WellFormed.plain {n : Node} (h : n.WellFormed) : n.plain.WellFormed := by
  induction h with
  | token t => exact .token _
  | @branch k cs hFills _ ih =>
    rw [Node.plain, open_branch]
    refine .branch ?_ ?_
    · have hTags : (cs.map fun c => (c.1, c.2.strip false)).map tag = cs.map tag := by
        rw [List.map_map]
        exact List.map_congr_left fun c _ => by simp [tag]
      rwa [hTags]
    · rintro d hd
      obtain ⟨c, hc, rfl⟩ := List.mem_map.mp hd
      exact ih c hc

theorem tokens_strip (n : Node) : (n.strip false).tokens = n.tokens.map Token.plain := by
  induction n using Node.induct with
  | token t => rfl
  | branch k cs ih =>
    rw [open_branch, tokens, tokens, tokensOf_eq, tokensOf_eq, List.flatMap_map, List.map_flatMap]
    exact List.flatMap_congr ih

/-- Names stay chains without layout. -/
theorem Chained.plain {n : Node} (h : n.Chained) : n.plain.Chained := by
  induction h with
  | token t => exact .token _
  | @branch k cs hName _ ih =>
    have hTokens := tokens_strip (.branch k cs)
    rw [open_branch, tokens, tokens] at hTokens
    rw [Node.plain, open_branch]
    refine .branch (fun hForm => ?_) ?_
    · obtain ⟨t, links, hSplit, ht, hLinks⟩ := hName hForm
      rw [hTokens, hSplit, List.map_cons]
      refine ⟨t.plain, _, rfl, ht, ?_⟩
      clear hSplit
      induction hLinks with
      | nil => exact .nil
      | cons hDot ht _ ih => exact .cons hDot ht ih
    · rintro d hd
      obtain ⟨c, hc, rfl⟩ := List.mem_map.mp hd
      exact ih c hc

theorem walk_strip (n : Node) : (n.strip false).walk = n.walk.map (strip false) := by
  induction n using Node.induct with
  | token t => rfl
  | branch k cs ih =>
    rw [open_branch, walk, walkOf_eq, walk, walkOf_eq, List.map_cons, open_branch,
      List.flatMap_map, List.map_flatMap]
    congr 1
    exact List.flatMap_congr ih

end Node

-- ---------------------------------------------------------------------------
-- Variables
-- ---------------------------------------------------------------------------

namespace Variables

variable {shut : Bool} {resolve : Node → Option TypeName}

/-- What a run declares does not depend on layout, nor on what stands in blocks. -/
theorem declared_strip (hResolve : ∀ n : Node, n.form = .name → resolve (n.strip shut) = resolve n)
    {run : List Node} (hRun : ∀ n ∈ run, n.WellFormed) :
    declared resolve (run.map (Node.strip shut)) = declared resolve run := by
  have hFrom : ∀ previous : Option Node,
      declaredFrom resolve (previous.map (Node.strip shut)) (run.map (Node.strip shut)) =
        declaredFrom resolve previous run := by
    induction run with
    | nil => exact fun _ => rfl
    | cons type run ih =>
      intro previous
      have ih := ih fun n hn => hRun n (List.mem_cons_of_mem _ hn)
      cases run with
      | nil => rfl
      | cons next rest =>
        have hLater := ih (some type)
        rw [List.map_cons, Option.map_some] at hLater
        rw [List.map_cons, List.map_cons, declaredFrom, declaredFrom, hLater]
        congr 1
        rw [Node.typeHead_strip]
        cases hHead : type.typeHead? with
        | none => rfl
        | some head =>
          have hName := (hRun type List.mem_cons_self).form_typeHead hHead
          cases previous <;> cases rest <;> simp [hResolve head hName]
  exact hFrom none

end Variables

-- ---------------------------------------------------------------------------
-- The scope
-- ---------------------------------------------------------------------------

/-- The parts of the name that an import or a package has are told without layout. -/
theorem Node.WellFormed.nameParts_strip {n : Node} {shut : Bool} (h : n.WellFormed)
    (hForm : n.form = .importDeclaration ∨ n.form = .packageDeclaration) :
    ((n.strip shut).field? .name).map nameParts = (n.field? .name).map nameParts := by
  have hOpen : ¬ (shut = true ∧ n.form = .block) :=
    open_of_form (by rcases hForm with h | h <;> simp [h])
  rw [first_strip hOpen, Option.map_map]
  cases hName : n.field? .name with
  | none => rfl
  | some name =>
    have hNameForm : name.form = .name := by
      have hFiled (k : NodeKind) (hSlot : ⟨.name, .one, [.name]⟩ ∈ k.slots) (cs : List (Field × Node))
          (hEq : n = .branch k cs) : name.form = .name := by
        subst hEq
        obtain ⟨m, hm, hForm, -⟩ := h.exists_filed_one [.name] hSlot
        rw [field?, field_branch, hm] at hName
        rw [← Option.some.inj hName]
        exact List.mem_singleton.mp hForm
      rcases hForm with hForm | hForm
      · obtain ⟨cs, hEq⟩ := exists_children (k := .importDeclaration) rfl hForm
        exact hFiled _ (by simp [NodeKind.slots]) cs hEq
      · obtain ⟨cs, hEq⟩ := exists_children (k := .packageDeclaration) rfl hForm
        exact hFiled _ (by simp [NodeKind.slots]) cs hEq
    exact congrArg some (parts_strip (open_of_form (by simp [hNameForm])))

namespace Import

variable {shut : Bool} {imp : Node} (h : imp.form = .importDeclaration)

include h

theorem isStatic_strip : isStatic (imp.strip shut) = isStatic imp := by
  rw [isStatic, isStatic, Node.first_strip (Node.open_of_form (by simp [h])), Option.isSome_map]

theorem isWildcard_strip : isWildcard (imp.strip shut) = isWildcard imp := by
  rw [isWildcard, isWildcard, Node.first_strip (Node.open_of_form (by simp [h])), Option.isSome_map]

theorem isSingle_strip : isSingle (imp.strip shut) = isSingle imp := by
  rw [isSingle, isSingle, isStatic_strip h, isWildcard_strip h]

theorem qualifiedName_strip (hFine : imp.WellFormed) :
    qualifiedName (imp.strip shut) = qualifiedName imp := by
  have hDotted (m : Option Node) : m.map Node.dottedName = (m.map Node.nameParts).map Text.joinDots := by
    cases m <;> rfl
  rw [qualifiedName, qualifiedName, hDotted, hFine.nameParts_strip (Or.inl h), ← hDotted]

theorem simpleName_strip (hFine : imp.WellFormed) : simpleName (imp.strip shut) = simpleName imp := by
  have hLast (m : Option Node) :
      m.bind (·.nameParts.getLast?) = (m.map Node.nameParts).bind List.getLast? := by
    cases m <;> rfl
  rw [simpleName, simpleName, hLast, hFine.nameParts_strip (Or.inl h), ← hLast]

end Import

namespace Scope

variable {shut : Bool} {s : Scope} {n : Node}

/-- The meaning of a name does not depend on its layout. -/
theorem resolve_strip (h : n.form = .name) : s.resolve (n.strip shut) = s.resolve n := by
  rw [resolve, resolve, Node.parts_strip (Node.open_of_form (by simp [h]))]

/-- A type declaration without layout declares the same types. -/
theorem declarations_strip (h : n.WellFormed) (owner : String) :
    declarations owner (n.strip shut) =
      (declarations owner n).map fun d => (d.1, d.2.strip shut) := by
  induction n using Node.induct_deep generalizing owner with
  | token t => rfl
  | branch k cs _ ih =>
    by_cases hType : k = .typeDeclaration
    · subst hType
      have hName := @Node.declaredName_strip shut (.branch .typeDeclaration cs)
        (Node.open_of_form (by simp [Node.form, NodeKind.form]))
      rw [Node.strip_branch (by simp)] at hName ⊢
      rw [declarations, declarations, hName, List.map_cons, Node.strip_branch (by simp)]
      congr 1
      have hBody (o : String) : ∀ ds ⊆ cs,
          declarationsInBody o (ds.map fun c => (c.1, c.2.strip shut)) =
            (declarationsInBody o ds).map fun d => (d.1, d.2.strip shut) := by
        intro ds hds
        induction ds with
        | nil => rfl
        | cons d ds ihRest =>
          obtain ⟨f, m⟩ := d
          have hMem : (f, m) ∈ cs := hds List.mem_cons_self
          have ihRest := ihRest fun c hc => hds (List.mem_cons_of_mem _ hc)
          by_cases hField : f = .body
          · subst hField
            cases m with
            | token t => exact ihRest
            | branch k ms =>
              -- the body of a type is no block
              obtain ⟨slot, hSlot, hBody, hForm⟩ := h.fills.mem (List.mem_map_of_mem hMem)
              have hClassBody : k.form = .classBody := by
                simp only [NodeKind.slots, List.mem_cons, List.not_mem_nil, or_false] at hSlot
                rcases hSlot with rfl | rfl | rfl | rfl | rfl | rfl | rfl <;>
                  first | exact List.mem_singleton.mp hForm | cases hBody
              have hOpen : ¬ (shut = true ∧ k = .block) := by
                rintro ⟨-, rfl⟩
                cases hClassBody
              rw [List.map_cons, Node.strip_branch hOpen, declarationsInBody, declarationsInBody,
                ihRest, declarationsAmong_eq, declarationsAmong_eq, List.flatMap_map,
                List.map_append, List.map_flatMap]
              congr 1
              exact List.flatMap_congr fun c hc =>
                ih _ hMem c hc ((h.child hMem).child hc) o
          · have hSkip (m : Node) (es : List (Field × Node)) :
                declarationsInBody o ((f, m) :: es) = declarationsInBody o es :=
              @declarationsInBody_append _ [(f, m)] es (by simpa using hField)
            rw [List.map_cons, hSkip, hSkip, ihRest]
      exact hBody _ cs fun c hc => hc
    · have hForm : (Node.branch k cs).form ≠ .typeDeclaration := by
        intro hForm
        exact hType (by cases k <;> first | rfl | cases hForm)
      rw [declarations_eq_nil (by rwa [Node.form_strip]), declarations_eq_nil hForm]
      rfl

/-- The members of a type declaration without layout. -/
theorem members_strip (h : n.WellFormed) (hForm : n.form = .typeDeclaration) :
    (n.strip shut).members = n.members.map (Node.strip shut) := by
  obtain ⟨cs, rfl⟩ := Node.exists_children (k := .typeDeclaration) rfl hForm
  obtain ⟨p, hEq, -⟩ := h.exists_classParts
  rw [Node.members, Node.members, Node.first_strip (Node.open_of_form (by simp [hForm])), hEq]
  have hBody : p.toNode.field? .body = some p.body := by
    rw [ClassParts.toNode, Node.field?, Node.field_branch, ClassParts.filed_body]
    rfl
  rw [hBody]
  simp only [Option.map_some, Option.getD_some]
  exact Node.field_strip (Node.open_of_form (by simp [ClassParts.body, Node.form, NodeKind.form])) _

theorem wellFormed_members (h : n.WellFormed) : ∀ m ∈ n.members, m.WellFormed := by
  intro m hm
  unfold Node.members at hm
  cases hBody : n.field? .body with
  | none => simp [hBody] at hm
  | some body =>
    rw [hBody] at hm
    exact (h.of_field (List.mem_of_head? hBody)).of_field hm

/-- What a method returns does not depend on layout. -/
theorem returnType_strip (h : n.WellFormed) (hForm : n.form = .method) :
    s.returnType (n.strip shut) = s.returnType n := by
  rw [returnType, returnType, Node.field_strip (Node.open_of_form (by simp [hForm])),
    List.getLast?_map]
  cases hLast : (n.field .modifiers).getLast? with
  | none => rfl
  | some last =>
    rw [Option.map_some, Option.bind_some, Option.bind_some, Node.typeHead_strip]
    cases hHead : last.typeHead? with
    | none => rfl
    | some head =>
      have hFine := h.of_field (List.mem_of_getLast? hLast)
      exact resolve_strip (hFine.form_typeHead hHead)

/-- The supertype of a class does not depend on layout. -/
theorem supertype_strip (h : n.WellFormed) (hForm : n.form = .typeDeclaration) :
    (n.strip shut).supertypeName?.bind s.resolve = n.supertypeName?.bind s.resolve := by
  rw [Node.supertypeName?, Node.supertypeName?,
    Node.first_strip (Node.open_of_form (by simp [hForm]))]
  cases hClause : n.field? .superclass with
  | none => rfl
  | some clause =>
    have hMem := List.mem_of_head? hClause
    have hClauseForm : clause.form = .extendsClause := by
      obtain ⟨cs, rfl⟩ := Node.exists_children (k := .typeDeclaration) rfl hForm
      have hSlot : ⟨.superclass, .optional, [.extendsClause]⟩ ∈ NodeKind.typeDeclaration.slots := by
        simp [NodeKind.slots]
      exact List.mem_singleton.mp ((h.fieldwise.2 _ hSlot).2 clause hMem).1
    rw [Option.map_some, Option.bind_some, Option.bind_some,
      Node.first_strip (Node.open_of_form (by simp [hClauseForm]))]
    cases hType : clause.field? .supertype with
    | none => rfl
    | some type =>
      rw [Option.map_some, Option.bind_some, Option.bind_some, Node.typeHead_strip]
      cases hHead : type.typeHead? with
      | none => rfl
      | some head =>
        have hFine := (h.of_field hMem).of_field (List.mem_of_head? hType)
        exact resolve_strip (hFine.form_typeHead hHead)

/-- What a class declares does not depend on layout, nor on what stands in blocks. -/
theorem describe_strip (h : n.WellFormed) (hForm : n.form = .typeDeclaration) :
    s.describe (n.strip shut) = s.describe n := by
  have hFine := wellFormed_members h
  have hSupertype := @supertype_strip shut s n h hForm
  simp only [Node.supertypeName?] at hSupertype
  rw [describe, describe, members_strip h hForm, List.flatMap_map, List.filterMap_map, hSupertype]
  congr 1
  · refine List.flatMap_congr fun m hm => ?_
    cases m with
    | token t => rfl
    | branch k cs =>
      cases k with
      | statement =>
        have hRun := @Node.field_strip shut (.branch .statement cs)
          (Node.open_of_form (by simp [Node.form, NodeKind.form])) .elements
        rw [Node.strip_branch (by simp)] at hRun ⊢
        simp only [hRun]
        exact Variables.declared_strip (fun _ => resolve_strip) fun e he => (hFine _ hm).of_field he
      | _ => rfl
  · refine List.filterMap_congr fun m hm => ?_
    cases m with
    | token t => rfl
    | branch k cs =>
      cases k with
      | method =>
        have hName := @Node.declaredName_strip shut (.branch .method cs)
          (Node.open_of_form (by simp [Node.form, NodeKind.form]))
        have hReturns := @returnType_strip shut s _ (hFine _ hm) rfl
        rw [Node.strip_branch (by simp)] at hName hReturns
        simp only [Function.comp_apply, @Node.strip_branch shut .method (by simp)]
        rw [hName, hReturns]
      | _ => rfl

/-- The package of a unit is told without layout. -/
theorem packageName_strip (h : n.WellFormed) (hUnit : n.form = .unit) :
    Unit.packageName (n.strip shut) = Unit.packageName n := by
  rw [Unit.packageName, Unit.packageName, Node.first_strip (Node.open_of_form (by simp [hUnit]))]
  cases hPackage : n.field? .package with
  | none => rfl
  | some p =>
    have hMem := List.mem_of_head? hPackage
    have hForm : p.form = .packageDeclaration := by
      obtain ⟨cs, rfl⟩ := Node.exists_children (k := .unit) rfl hUnit
      have hSlot : ⟨.package, .optional, [.packageDeclaration]⟩ ∈ NodeKind.unit.slots := by
        simp [NodeKind.slots]
      exact List.mem_singleton.mp ((h.fieldwise.2 _ hSlot).2 p hMem).1
    have hParts := @Node.WellFormed.nameParts_strip p shut (h.of_field hMem) (Or.inr hForm)
    have hDotted (m : Option Node) :
        m.map Node.dottedName = (m.map Node.nameParts).map Text.joinDots := by
      cases m <;> rfl
    rw [Option.map_some, Option.bind_some, Option.bind_some, hDotted, hParts, ← hDotted]

/-- A declared type has a well-formed declaration. -/
theorem wellFormed_of_declared {owner : String} {members : List Node} {t : TypeName} {decl : Node}
    (h : Declared owner members t decl) (hFine : ∀ m ∈ members, m.WellFormed) :
    decl.WellFormed ∧ decl.form = .typeDeclaration := by
  induction h with
  | here hMem hForm => exact ⟨hFine _ hMem, hForm⟩
  | inside hOuter _ _ ih => exact ih (wellFormed_members (hFine _ hOuter))

/-- The types declared in a unit, without layout. -/
theorem found_strip (h : n.WellFormed) (hUnit : n.form = .unit) :
    declarationsAmong (Unit.packageName n) (((n.strip shut).field .types).map fun m => (Field.types, m)) =
      (declarationsAmong (Unit.packageName n) ((n.field .types).map fun m => (Field.types, m))).map
        fun d => (d.1, d.2.strip shut) := by
  rw [Node.field_strip (Node.open_of_form (by simp [hUnit])), declarationsAmong_eq,
    declarationsAmong_eq, List.flatMap_map, List.flatMap_map, List.flatMap_map, List.map_flatMap]
  exact List.flatMap_congr fun m hm => declarations_strip (h.of_field hm) _

/-- The imports of a unit, without layout. -/
theorem imports_strip (h : n.WellFormed) (hUnit : n.form = .unit) {α : Type} (p : Node → Bool)
    (f : Node → α) (hp : ∀ i : Node, i.form = .importDeclaration → p (i.strip shut) = p i)
    (hf : ∀ i : Node, i.form = .importDeclaration → i.WellFormed → f (i.strip shut) = f i) :
    (((n.strip shut).field .imports).filter p).map f = ((n.field .imports).filter p).map f := by
  have hForm : ∀ i ∈ n.field .imports, i.form = .importDeclaration ∧ i.WellFormed := by
    obtain ⟨cs, rfl⟩ := Node.exists_children (k := .unit) rfl hUnit
    have hSlot : ⟨.imports, .many, [.importDeclaration]⟩ ∈ NodeKind.unit.slots := by
      simp [NodeKind.slots]
    exact fun i hi => ⟨List.mem_singleton.mp (h.filed_many hSlot i hi).1, (h.filed_many hSlot i hi).2⟩
  rw [Node.field_strip (Node.open_of_form (by simp [hUnit])), List.filter_map, List.map_map]
  rw [List.filter_congr fun i hi => show (p ∘ Node.strip shut) i = p i from hp i (hForm i hi).1]
  refine List.map_congr_left fun i hi => ?_
  obtain ⟨hImport, hFine⟩ := hForm i (List.mem_filter.mp hi).1
  exact hf i hImport hFine

/-- A unit has the scope of the unit without layout and without the insides of its blocks. -/
theorem scope_strip (classpath : Classpath) (h : n.WellFormed) (hUnit : n.form = .unit) :
    ofUnit (n.strip shut) classpath = ofUnit n classpath := by
  have hFound := @found_strip shut n h hUnit
  have hDecl : ∀ d ∈ declarationsAmong (Unit.packageName n)
      ((n.field .types).map fun m => (Field.types, m)),
      d.2.WellFormed ∧ d.2.form = .typeDeclaration := fun d hd =>
    wellFormed_of_declared (declared_of_found h hd) fun m hm => h.of_field hm
  have hSingle := @imports_strip shut n h hUnit _
    (fun i => Import.isSingle i && !Import.isStatic i)
    (fun i => (Import.simpleName i, (⟨Import.qualifiedName i⟩ : TypeName)))
    (fun i hi => by rw [Import.isSingle_strip hi, Import.isStatic_strip hi])
    (fun i hi hFine => by rw [Import.simpleName_strip hi hFine, Import.qualifiedName_strip hi hFine])
  have hOnDemand := @imports_strip shut n h hUnit _
    (fun i => Import.isWildcard i && !Import.isStatic i) Import.qualifiedName
    (fun i hi => by rw [Import.isWildcard_strip hi, Import.isStatic_strip hi])
    (fun i hi hFine => Import.qualifiedName_strip hi hFine)
  have hNames {α : Type} (f : TypeName → String → α) :
      ((declarationsAmong (Unit.packageName n) ((n.field .types).map fun m => (Field.types, m))).map
          fun d => (d.1, d.2.strip shut)).map (fun d => f d.1 d.2.declaredName) =
        (declarationsAmong (Unit.packageName n)
          ((n.field .types).map fun m => (Field.types, m))).map fun d => f d.1 d.2.declaredName := by
    rw [List.map_map]
    refine List.map_congr_left fun d hd => ?_
    exact congrArg (f d.1) (Node.declaredName_strip (Node.open_of_form (by simp [(hDecl d hd).2])))
  simp only [ofUnit, packageName_strip h hUnit, hFound, List.filter_filter, hSingle, hOnDemand,
    hNames fun t name => (name, t), hNames fun t _ => (t, (⟨none, [], []⟩ : ClassInfo))]
  congr 1
  rw [List.map_map]
  refine List.map_congr_left fun d hd => ?_
  exact congrArg (Prod.mk d.1) (describe_strip (hDecl d hd).1 (hDecl d hd).2)

end Scope

-- ---------------------------------------------------------------------------
-- Receivers
-- ---------------------------------------------------------------------------

namespace Surroundings

variable {s : Surroundings}

theorem beforeOpening_strip (depth : Nat) (before : List Node) :
    beforeOpening? depth (before.map (Node.strip false)) =
      (beforeOpening? depth before).map (List.map (Node.strip false)) := by
  induction before generalizing depth with
  | nil => rfl
  | cons e before ih =>
    rw [List.map_cons, beforeOpening?, beforeOpening?, Node.isToken_strip, Node.isToken_strip]
    split
    · exact ih _
    · split
      · split
        · rfl
        · exact ih _
      · exact ih _

theorem pointed_strip (before : List Node) :
    pointed (before.map (Node.strip false)) = pointed before := by
  rcases before with _ | ⟨dot, _ | ⟨e, rest⟩⟩
  · rfl
  · rfl
  · exact Node.isToken_strip dot "."

/-- The type of an expression is told without layout. -/
theorem expressionType_strip (before : List Node) :
    s.expressionType? (before.map (Node.strip false)) = s.expressionType? before := by
  induction hLength : before.length using Nat.strongRecOn generalizing before with
  | ind length ih =>
    cases before with
    | nil => rfl
    | cons e before =>
      rw [List.map_cons]
      cases e with
      | token word =>
        have hSpells (text : String) : word.plain.spells text = word.spells text := rfl
        rw [Node.strip_token, expressionType?, expressionType?, hSpells, hSpells, hSpells,
          beforeOpening_strip]
        cases beforeOpening? 1 before with
        | none => rfl
        | some rest =>
          cases rest with
          | nil => rfl
          | cons e rest =>
            cases e with
            | token t => rfl
            | branch k cs =>
              cases k with
              | call m => cases m <;> rfl
              | _ => rfl
      | branch k cs =>
        cases k with
        | name type =>
          have hName := @Node.simpleNameOf_strip false (.branch (.name type) cs)
          rw [Node.open_branch] at hName ⊢
          cases type with
          | some type => simp [expressionType?]
          | none =>
            cases hSimple : (Node.branch (.name none) cs).simpleNameOf? with
            | none => simp [expressionType?, hName, hSimple]
            | some x =>
              have hSelf := hName.trans hSimple
              cases hPoint : pointed before with
              | false =>
                rw [expressionType_variable hSelf ((pointed_strip before).trans hPoint),
                  expressionType_variable hSimple hPoint]
              | true =>
                obtain ⟨dot, e, rest, rfl, hDot⟩ := exists_of_pointed hPoint
                have hRest := ih (e :: rest).length (by rw [← hLength]; simp) _ rfl
                rw [List.map_cons] at hRest
                rw [List.map_cons, List.map_cons,
                  expressionType_member hSelf ((Node.isToken_strip dot ".").trans hDot),
                  expressionType_member hSimple hDot, hRest]
        | parameterized =>
          have hBase := @Node.first_strip false (.branch .parameterized cs) (by simp) .base
          rw [Node.open_branch] at hBase ⊢
          rw [expressionType?, expressionType?, hBase]
          cases (Node.branch .parameterized cs).field? .base with
          | none => rfl
          | some base =>
            cases base with
            | token t => rfl
            | branch k cs => cases k <;> rfl
        | _ =>
          rw [Node.open_branch]
          simp [expressionType?]

theorem receiverType_strip (before : List Node) :
    s.receiverType? (before.map (Node.strip false)) = s.receiverType? before := by
  cases before with
  | nil => rfl
  | cons dot before =>
    rw [List.map_cons, receiverType?, receiverType?, Node.isToken_strip, expressionType_strip]

theorem arityFrom_strip (depth commas : Nat) (found : Bool) (after : List Node) :
    arityFrom depth commas found (after.map (Node.strip false)) =
      arityFrom depth commas found after := by
  induction after generalizing depth commas found with
  | nil => rfl
  | cons e after ih => simp only [List.map_cons, arityFrom, Node.isToken_strip, ih]

end Surroundings

namespace Attribution

variable {s : Surroundings}

-- ---------------------------------------------------------------------------
-- Calls
-- ---------------------------------------------------------------------------

theorem methodAt_strip (before : List Node) (call : Node) (after : List Node) :
    s.methodAt? (before.map (Node.strip false)) (call.strip false) (after.map (Node.strip false)) =
      s.methodAt? before call after := by
  have hName : (call.strip false).calleeName = call.calleeName := by
    rw [Node.calleeName, Node.calleeName, Node.tokenAt_strip (by simp)]
    cases call.tokenAt? .callee <;> rfl
  simp only [Surroundings.methodAt?, Surroundings.receiverType_strip, hName,
    Surroundings.calledMethod?, Surroundings.arity, Surroundings.arityFrom_strip]

theorem attach_strip (before : List Node) (e : Node) (after : List Node) :
    attach s (before.map (Node.strip false)) (e.strip false) (after.map (Node.strip false)) =
      (attach s before e after).strip false := by
  cases e with
  | token t => rfl
  | branch k cs =>
    cases k with
    | call m =>
      cases m with
      | none =>
        have hMethod := methodAt_strip (s := s) before (.branch (.call none) cs) after
        rw [Node.open_branch] at hMethod ⊢
        rw [attach, attach, hMethod, Node.open_branch]
      | some m => rfl
    | _ => rfl

theorem ofCalls_strip (before : List Node) (cs : List (Field × Node)) :
    (ofCalls s (before.map (Node.strip false)) (cs.map fun c => (c.1, c.2.strip false))).value =
      (ofCalls s before cs).value.map fun c => (c.1, c.2.strip false) := by
  induction cs generalizing before with
  | nil => rfl
  | cons c cs ih =>
    obtain ⟨f, e⟩ := c
    have hAfter : (cs.map fun c => (c.1, c.2.strip false)).map Prod.snd =
        (cs.map Prod.snd).map (Node.strip false) := by simp
    rw [List.map_cons, ofCalls_cons, ofCalls_cons, hAfter, attach_strip, List.map_cons, ← ih,
      List.map_cons]

-- ---------------------------------------------------------------------------
-- Names and imports
-- ---------------------------------------------------------------------------

theorem divide_strip (scope : Scope) (cs : List (Field × Node)) (parts : List String) (count : Nat) :
    divide? scope (cs.map fun c => (c.1, c.2.strip false)) parts count =
      (divide? scope cs parts count).map (List.map (Node.strip false)) := by
  induction count with
  | zero => rfl
  | succ count ih =>
    rw [divide?, divide?, ih]
    split
    · rfl
    · simp only [← List.map_drop, ← List.map_take]
      cases cs.drop (2 * count + 1) with
      | nil => rfl
      | cons dot rest =>
        simp only [List.map_cons, Option.map_some, List.map_nil, Node.open_branch]

theorem ofName_strip (scope : Scope) (b : Bool) (cs : List (Field × Node)) :
    (ofName scope b (cs.map fun c => (c.1, c.2.strip false))).value =
      (ofName scope b cs).value.map (Node.strip false) := by
  have hParts := @Node.parts_strip false (.branch (.name none) cs) (by simp)
  rw [Node.open_branch] at hParts
  simp only [ofName, hParts, divide_strip]
  cases scope.resolveParts (Node.branch (.name none) cs).nameParts with
  | some t => simp only [List.map_cons, List.map_nil, Node.open_branch]
  | none =>
    simp only
    split
    · cases divide? scope cs (Node.branch (.name none) cs).nameParts _ with
      | none => simp only [Option.map_none, List.map_cons, List.map_nil, Node.open_branch]
      | some ns => rfl
    · simp only [List.map_cons, List.map_nil, Node.open_branch]

theorem setField_strip (n : Node) (f : Field) (new : Node) :
    (n.setField f new).strip false = (n.strip false).setField f (new.strip false) := by
  cases n with
  | token t => rfl
  | branch k cs =>
    rw [Node.setField, Node.open_branch, Node.open_branch, Node.setField]
    congr 1
    induction cs with
    | nil => rfl
    | cons c cs ih =>
      obtain ⟨g, n⟩ := c
      rw [List.map_cons, replaceFirst_cons, replaceFirst_cons]
      split
      · rfl
      · rw [List.map_cons, ih]

theorem ofImport_strip {imp : Node} (h : imp.WellFormed) (hForm : imp.form = .importDeclaration) :
    (ofImport (imp.strip false)).value = (ofImport imp).value.map (Node.strip false) := by
  rw [ofImport, ofImport, Import.isSingle_strip hForm, Import.qualifiedName_strip hForm h,
    Node.first_strip (by simp)]
  split
  · cases imp.field? .name with
    | none => rfl
    | some name =>
      cases name with
      | token t => rfl
      | branch k cs =>
        cases k with
        | name t =>
          rw [Option.map_some, Node.open_branch]
          simp only [List.map_cons, List.map_nil, setField_strip, Node.open_branch]
        | _ => rfl
  · rfl

-- ---------------------------------------------------------------------------
-- Whole trees
-- ---------------------------------------------------------------------------

/-- The variables of known type that the statements of a tree declare. -/
def recorded (scope : Scope) (n : Node) : List (String × TypeName) :=
  n.walk.flatMap fun m =>
    match m with
    | .branch .statement _ => Variables.declared scope.resolve (m.field .elements)
    | _ => []

theorem recorded_strip (scope : Scope) {n : Node} (h : n.WellFormed) :
    recorded scope (n.strip false) = recorded scope n := by
  rw [recorded, recorded, Node.walk_strip, List.flatMap_map]
  refine List.flatMap_congr fun m hm => ?_
  cases m with
  | token t => rfl
  | branch k cs =>
    cases k with
    | statement =>
      have hRun := @Node.field_strip false (.branch .statement cs) (by simp) .elements
      rw [Node.open_branch] at hRun ⊢
      simp only [hRun]
      exact Variables.declared_strip (fun _ => Scope.resolve_strip) fun e he =>
        (h.walk _ hm).of_field he
    | _ => rfl

theorem enter_strip {n : Node} (h : n.WellFormed) : enter s (n.strip false) = enter s n := by
  cases n with
  | token t => rfl
  | branch k cs =>
    cases k with
    | typeDeclaration =>
      have hName := @Node.declaredName_strip false (.branch .typeDeclaration cs) (by simp)
      rw [Node.open_branch] at hName ⊢
      simp only [enter, hName]
    | method =>
      have hVariables : methodVariables s.scope ((Node.branch .method cs).strip false) =
          methodVariables s.scope (.branch .method cs) := by
        show Variables.declared s.scope.resolve _ ++ List.flatMap (recorded s.scope) _ =
          Variables.declared s.scope.resolve _ ++ List.flatMap (recorded s.scope) _
        rw [Node.field_strip (by simp), Node.field_strip (by simp), List.flatMap_map,
          Variables.declared_strip (fun _ => Scope.resolve_strip) fun e he => h.of_field he]
        congr 1
        exact List.flatMap_congr fun body hBody => recorded_strip s.scope (h.of_field hBody)
      rw [Node.open_branch] at hVariables ⊢
      simp only [enter, hVariables]
    | _ => rw [Node.open_branch]; rfl

/-- Attribution and stripping a node of its layout commute. -/
theorem ofNode_strip {b : Bool} {n : Node} (h : n.WellFormed) :
    (ofNode s b (n.strip false)).value = (ofNode s b n).value.map (Node.strip false) := by
  induction h generalizing s b with
  | token t => rfl
  | @branch k cs hFills hChildren ih =>
    have hFine : (Node.branch k cs).WellFormed := .branch hFills hChildren
    have hInner (s : Surroundings) (b : Bool) :
        (ofChildren s b (cs.map fun c => (c.1, c.2.strip false))).value =
          (ofChildren s b cs).value.map fun c => (c.1, c.2.strip false) := by
      rw [ofChildren_value, ofChildren_value, List.flatMap_map, List.map_flatMap]
      refine List.flatMap_congr fun c hc => ?_
      simp only [ih c hc, List.map_map]
      rfl
    have hEnter := enter_strip (s := s) hFine
    rw [Node.open_branch] at hEnter ⊢
    by_cases hName : k = .name none
    · subst hName
      rw [ofNode, ofNode]
      exact ofName_strip s.scope b cs
    by_cases hForm : k.form ∉ [Form.packageDeclaration, .importDeclaration, .statement]
    · rw [ofNode_branch hForm hName, ofNode_branch hForm hName, hEnter, hInner, List.map_cons,
        List.map_nil, Node.open_branch]
    · cases k with
      | packageDeclaration =>
        rw [ofNode, ofNode, List.map_cons, List.map_nil, Node.open_branch]
      | importDeclaration =>
        rw [ofNode, ofNode, ← Node.open_branch]
        exact ofImport_strip hFine rfl
      | statement =>
        have hCalls := ofCalls_strip (s := s) [] (ofChildren s true cs).value
        rw [List.map_nil] at hCalls
        rw [ofNode, ofNode]
        simp only [hInner, hCalls, List.map_cons, List.map_nil, Node.open_branch]
      | name _ | parameterized | call _ | block | extendsClause | method | classBody
      | typeDeclaration | unit => simp [NodeKind.form] at hForm

/-- Attribution and stripping a unit of its layout commute. -/
theorem ofUnit_plain (classpath : Classpath) {unit : Node} (h : unit.WellFormed)
    (hUnit : unit.form = .unit) :
    (ofUnit classpath unit.plain).value = (ofUnit classpath unit).value.plain := by
  obtain ⟨m, hm, -⟩ := (annotates_ofNode (s := { scope := Scope.ofUnit unit classpath })
    (b := false) h).single (Or.inl rfl)
  unfold ofUnit
  simp only [Scope.scope_strip classpath h hUnit, ofNode_strip h, hm, List.map_cons, List.headD_cons]

end Attribution

end SourceMigration
