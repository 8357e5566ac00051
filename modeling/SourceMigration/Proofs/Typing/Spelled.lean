import SourceMigration.Proofs.Tree.Sturdy
import SourceMigration.Proofs.Typing.Justified

/-!
# SourceMigration — attribution keeps trees sturdy

Whatever a name comes to denote, it is spelled by it: a type that is declared ends with its own
name, an import with its last part, and a nested type is named from a spelling of the outer one. A
name that is divided falls apart into chains, and into more than nothing; all else is kept child by
child.

## Results

* `spells_ofUnit`   — what a name means is spelled by the name.
* `sturdy_ofNode`   — what a sturdy node becomes is sturdy.
* `sturdy_ofUnit`   — a sturdy unit is attributed to a sturdy unit.
-/

namespace SourceMigration

-- ---------------------------------------------------------------------------
-- The meaning of names
-- ---------------------------------------------------------------------------

/-- The full name of a declared type ends with its own name. -/
theorem Declared.spelledBy {owner : String} {members : List Node} {t : TypeName} {decl : Node}
    (h : Declared owner members t decl) : t.SpelledBy decl.declaredName := by
  induction h with
  | here => exact TypeName.spelledBy_member _ _
  | inside _ _ _ ih => exact ih

/-- The type that an import names is spelled by the last part of the import. -/
theorem Import.spelledBy_simpleName (imp : Node) :
    (TypeName.mk (qualifiedName imp)).SpelledBy (simpleName imp) := by
  unfold qualifiedName simpleName
  cases imp.field? .name with
  | none => exact Or.inl rfl
  | some name =>
    simp only [Option.bind_some, Option.map_some, Option.getD_some, Node.dottedName]
    cases name.nameParts with
    | nil => exact Or.inl rfl
    | cons part parts =>
      rw [List.getLast?_eq_getLast_of_ne_nil (by simp), Option.getD_some]
      exact Text.joinDots_ends part parts

namespace Scope

variable {tree : Node} {classpath : Classpath} {t : TypeName}

/-- What a name means is spelled by it. -/
def Spells (s : Scope) : Prop := ∀ name t, s.resolve name = some t → t.SpelledBy name.dottedName

theorem spelledBy_of_resolveSimple (hFine : tree.WellFormed) {part : String}
    (h : (ofUnit tree classpath).resolveSimple part = some t) : t.SpelledBy part := by
  rw [resolveSimple_eq] at h
  cases hDeclared : (ofUnit tree classpath).declared.lookup part with
  | some u =>
    obtain rfl : u = t := by simpa [hDeclared] using h
    obtain ⟨⟨v, decl⟩, hFound, hEq⟩ :=
      List.mem_map.mp (firstOfEach_subset _ (mem_of_lookup hDeclared))
    obtain ⟨rfl, rfl⟩ := Prod.mk.inj hEq
    exact (declared_of_found hFine hFound).spelledBy
  | none =>
    cases hImported : (ofUnit tree classpath).explicit.lookup part with
    | some u =>
      obtain rfl : u = t := by simpa [hDeclared, hImported] using h
      obtain ⟨imp, -, hEq⟩ := List.mem_map.mp (firstOfEach_subset _ (mem_of_lookup hImported))
      obtain ⟨rfl, rfl⟩ := Prod.mk.inj hEq
      exact Import.spelledBy_simpleName imp
    | none =>
      have hFound : ((ofUnit tree classpath).candidates part).find?
          (ofUnit tree classpath).classpath.knows = some t := by
        simpa [hDeclared, hImported] using h
      have hMem := List.mem_of_find?_eq_some hFound
      simp only [candidates, List.mem_append, List.mem_cons, List.mem_map, List.not_mem_nil,
        or_false] at hMem
      rcases hMem with (rfl | ⟨package, -, rfl⟩) | rfl
      · exact TypeName.spelledBy_member _ _
      · exact Or.inr ⟨package, rfl⟩
      · exact TypeName.spelledBy_member _ _

/-- What a name of a unit means is spelled by the name. -/
theorem spells_ofUnit (hFine : tree.WellFormed) : (ofUnit tree classpath).Spells := by
  intro name t h
  unfold resolve at h
  unfold Node.dottedName
  generalize name.nameParts = parts at h
  rcases parts with _ | ⟨head, _ | ⟨next, rest⟩⟩
  · cases h
  · have hSimple : t.SpelledBy head := spelledBy_of_resolveSimple hFine h
    simpa [Text.joinDots] using hSimple
  · simp only [resolveParts] at h
    split at h
    · obtain rfl := Option.some.inj h
      exact Or.inl rfl
    · split at h
      · rename_i u hInner
        obtain rfl := Option.some.inj h
        obtain ⟨outer, hOuter, rfl⟩ :=
          Option.map_eq_some_iff.mp (Option.filter_eq_some_iff.mp hInner).1
        exact (spelledBy_of_resolveSimple hFine hOuter).member next rest
      · rw [Option.ite_none_right_eq_some] at h
        obtain rfl := Option.some.inj h.2
        exact Or.inl rfl

end Scope

-- ---------------------------------------------------------------------------
-- Nodes
-- ---------------------------------------------------------------------------

namespace Attribution

variable {s : Surroundings} {cs : List (Field × Node)}

/-- A name becomes names that spell what they denote, and a point between them. -/
theorem sturdy_ofName (hs : s.scope.Spells) {ts : List Token} (h : Chain ts) (b : Bool) :
    (ofName s.scope b (ts.map fun t => (.tokens, .token t))).value ≠ [] ∧
      ∀ m ∈ (ofName s.scope b (ts.map fun t => (.tokens, .token t))).value, m.Sturdy := by
  rcases resolved_ofName (s := s.scope) h b with
    ⟨m, hm, hName, -⟩ | ⟨-, type, front, dot, back, hDivides, hm⟩
  · rw [hm, List.forall_mem_singleton]
    refine ⟨by simp, ?_⟩
    cases hName with
    | name => exact Node.sturdy_nameOf h fun t ht => hs _ t ht
    | branch hk => simp [NodeKind.form] at hk
  · rw [hm]
    refine ⟨by simp, ?_⟩
    simp only [List.forall_mem_cons, List.not_mem_nil, false_imp_iff, implies_true, and_true]
    refine ⟨Node.sturdy_nameOf hDivides.splits.front ?_, .token dot,
      Node.sturdy_nameOf hDivides.splits.back (by rintro _ ⟨⟩)⟩
    rintro t ⟨⟩
    exact hs _ _ hDivides.denotes

/-- An import keeps all but what its name denotes. -/
theorem sturdy_ofImport (h : (Node.branch .importDeclaration cs).Sturdy) :
    ∃ m, (ofImport (.branch .importDeclaration cs)).value = [m] ∧ m.Sturdy := by
  unfold ofImport
  split
  · split
    · rename_i type ns hName
      obtain ⟨rest, hFiled⟩ : ∃ rest, filed .name cs = .branch (.name type) ns :: rest :=
        List.head?_eq_some_iff.mp hName
      obtain ⟨front, back, rfl, hReplace⟩ := exists_split_of_filed hFiled
      have hOld : (Node.branch (.name type) ns).Sturdy :=
        h.child (c := (.name, .branch (.name type) ns)) (by simp)
      obtain ⟨ts, rfl, hChain, -⟩ := hOld.exists_chain
      refine ⟨_, rfl, ?_⟩
      rw [Node.setField, hReplace]
      refine h.alike (by simp [NodeKind.form])
        (List.rel_append (List.forall₂_same.mpr fun c _ => .refl c)
          (.cons ⟨rfl, by rintro _ ⟨⟩⟩ (List.forall₂_same.mpr fun c _ => .refl c))) fun d hd => ?_
      simp only [List.mem_append, List.mem_cons] at hd
      rcases hd with hd | rfl | hd
      · exact h.child (List.mem_append_left _ hd)
      · refine Node.sturdy_nameOf hChain ?_
        rintro t ⟨⟩
        rw [Import.qualifiedName, hName]
        exact Or.inl rfl
      · exact h.child (List.mem_append_right _ (List.mem_cons_of_mem _ hd))
    · exact ⟨_, rfl, h⟩
  · exact ⟨_, rfl, h⟩

/-- Calls stay sturdy whatever method they are found to denote. -/
theorem sturdy_called {ds : List (Field × Node)} (h : List.Forall₂ Called cs ds)
    (hcs : ∀ c ∈ cs, c.2.Sturdy) : ∀ d ∈ ds, d.2.Sturdy := by
  induction h with
  | nil => simp
  | @cons c d cs ds hc _ ih =>
    obtain ⟨hFirst, hRest⟩ := List.forall_mem_cons.mp hcs
    refine List.forall_mem_cons.mpr ⟨?_, ih hRest⟩
    cases hc with
    | same => exact hFirst
    | attached f m ns => exact hFirst.recall (some m)

/-- What a sturdy node becomes is something, and all of it sturdy. -/
theorem sturdy_ofNode (hs : s.scope.Spells) {n : Node} (h : n.Sturdy) (b : Bool) :
    (ofNode s b n).value ≠ [] ∧ ∀ m ∈ (ofNode s b n).value, m.Sturdy := by
  induction h generalizing s b with
  | token t =>
    rw [ofNode]
    exact ⟨by simp, by simpa using .token t⟩
  | @branch k cs hFills hIntact hSpelled hChildren ih =>
    have hNode : (Node.branch k cs).Sturdy := .branch hFills hIntact hSpelled hChildren
    by_cases hName : k = .name none
    · subst hName
      obtain ⟨ts, rfl, hChain, -⟩ := hNode.exists_chain
      rw [ofNode]
      exact sturdy_ofName hs hChain b
    by_cases hForm : k.form ∉ [Form.packageDeclaration, .importDeclaration, .statement]
    · rw [ofNode_branch hForm hName, List.forall_mem_singleton]
      refine ⟨by simp, ?_⟩
      -- every child stays one child
      have hOne : ∀ c ∈ cs, ∃ m, (ofNode (enter s (.branch k cs)) false c.2).value = [m] ∧
          m.form = c.2.form := fun c hc =>
        (annotates_ofNode (hChildren c hc).wellFormed).single (Or.inl rfl)
      have hMap : (ofChildren (enter s (.branch k cs)) false cs).value = cs.map fun c =>
          (c.1, (ofNode (enter s (.branch k cs)) false c.2).value.headD c.2) := by
        rw [ofChildren_value, List.map_eq_flatMap]
        refine List.flatMap_congr fun c hc => ?_
        obtain ⟨m, hm, -⟩ := hOne c hc
        rw [hm]
        rfl
      rw [hMap]
      refine hNode.map (g := fun n => (ofNode (enter s (.branch k cs)) false n).value.headD n)
        (fun t => by rw [ofNode]; rfl) (fun c hc => ?_) fun c hc => ?_
      · obtain ⟨m, hm, hSame⟩ := hOne c hc
        simpa [hm] using hSame
      · obtain ⟨m, hm, -⟩ := hOne c hc
        have hScope : (enter s (.branch k cs)).scope.Spells := by rwa [scope_enter]
        simpa [hm] using (ih c hc hScope false).2 m (by simp [hm])
    · cases k with
      | packageDeclaration =>
        rw [ofNode, List.forall_mem_singleton]
        exact ⟨by simp, hNode⟩
      | importDeclaration =>
        obtain ⟨m, hm, hSturdy⟩ := sturdy_ofImport hNode
        rw [ofNode, hm, List.forall_mem_singleton]
        exact ⟨by simp, hSturdy⟩
      | statement =>
        have hFine := (annotates_ofNode (s := s) (b := b) hNode.wellFormed).wellFormed
        rw [ofNode, List.forall_mem_singleton] at hFine ⊢
        have hCalls := called_ofCalls s [] (ofChildren s true cs).value
        refine ⟨by simp, .plain (by simp [NodeKind.form]) hFine.fills ?_
          (sturdy_called hCalls fun d hd => ?_)⟩
        · obtain ⟨c, rest, rfl⟩ := List.exists_cons_of_ne_nil hIntact
          intro hNil
          rw [hNil, List.forall₂_nil_right_iff, ofChildren_value, List.flatMap_cons,
            List.append_eq_nil_iff, List.map_eq_nil_iff] at hCalls
          exact (ih c List.mem_cons_self hs true).1 hCalls.1
        · rw [ofChildren_value] at hd
          obtain ⟨c, hc, hd⟩ := List.mem_flatMap.mp hd
          obtain ⟨m, hm, rfl⟩ := List.mem_map.mp hd
          exact (ih c hc hs true).2 m hm
      | name _ | parameterized | call _ | block | extendsClause | method | classBody
      | typeDeclaration | unit => simp [NodeKind.form] at hForm

/-- A sturdy unit is attributed to a sturdy unit. -/
theorem sturdy_ofUnit (classpath : Classpath) {unit : Node} (h : unit.Sturdy)
    (hUnit : unit.form = .unit) :
    (ofUnit classpath unit).value.form = .unit ∧ (ofUnit classpath unit).value.Sturdy := by
  have hScope : (Scope.ofUnit unit classpath).Spells := Scope.spells_ofUnit h.wellFormed
  obtain ⟨m, hm, hForm⟩ := (annotates_ofNode (s := { scope := Scope.ofUnit unit classpath })
    (b := false) h.wellFormed).single (Or.inl rfl)
  have hSturdy := (sturdy_ofNode (s := { scope := Scope.ofUnit unit classpath }) hScope h false).2
  unfold ofUnit
  simp only [hm, List.headD_cons]
  exact ⟨hForm.trans hUnit, hSturdy m (by rw [hm]; exact List.mem_cons_self)⟩

end Attribution

end SourceMigration
