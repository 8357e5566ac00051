import SourceMigration.Proofs.Tree.Parts
import SourceMigration.Typing.Attribution

/-!
# SourceMigration — attribution keeps the tree

Attribution attaches meanings to names and calls. Otherwise it only divides names that stand
directly in a statement. So a well-formed tree stays well-formed, its tokens are the same, and the
package of a unit is untouched.

## Results

* `annotates_ofNode`    — what a node becomes has its tokens, and its form but for divided names.
* `wellFormed_ofUnit`   — an attributed unit is well-formed.
* `tokens_ofUnit`       — it has the tokens it had before.
* `package_ofUnit`      — its package is the same.
-/

namespace SourceMigration

/-- A node of another kind with the same slots is as well-formed. -/
theorem Node.WellFormed.recast {k k' : NodeKind} {cs : List (Field × Node)}
    (h : WellFormed (.branch k cs)) (hSlots : k'.slots = k.slots) : WellFormed (.branch k' cs) :=
  .branch (hSlots ▸ h.fills) fun _ hc => h.child hc

namespace Attribution

/-- What a node has become: nodes with its tokens, well-formed, and one node of its form unless it
was a name directly in a statement. -/
structure Annotates (inStatement : Bool) (n : Node) (ns : List Node) : Prop where
  tokens : ns.flatMap Node.tokens = n.tokens
  wellFormed : ∀ m ∈ ns, m.WellFormed
  forms : ∀ m ∈ ns, m.form = n.form ∨ n.form = .name ∧ m.form = .token
  single : inStatement = false ∨ n.form ≠ .name → ∃ m, ns = [m] ∧ m.form = n.form

theorem annotates_one {b : Bool} {n m : Node} (hTokens : m.tokens = n.tokens)
    (hFine : m.WellFormed) (hForm : m.form = n.form) : Annotates b n [m] where
  tokens := by simpa using hTokens
  wellFormed := by simpa using hFine
  forms := by simp [hForm]
  single _ := ⟨m, rfl, hForm⟩

-- ---------------------------------------------------------------------------
-- Names and imports
-- ---------------------------------------------------------------------------

/-- A divided name is a name, a token and another name. -/
theorem exists_of_divide {s : Scope} {ts : List Token} {parts : List String} {count : Nat}
    {ns : List Node}
    (h : divide? s (ts.map fun t => (Field.tokens, Node.token t)) parts count = some ns) :
    ∃ t front dot back, ts = front ++ dot :: back ∧
      ns = [Node.nameOf (some t) front, .token dot, Node.nameOf none back] := by
  induction count with
  | zero => cases h
  | succ count ih =>
    rw [divide?] at h
    split at h
    · exact ih h
    · rename_i t _
      simp only [← List.map_drop, ← List.map_take] at h
      cases hDrop : ts.drop (2 * count + 1) with
      | nil =>
        rw [hDrop] at h
        cases h
      | cons dot back =>
        rw [hDrop] at h
        refine ⟨t, ts.take (2 * count + 1), dot, back, ?_, (Option.some.inj h).symm⟩
        rw [← hDrop, List.take_append_drop]

theorem annotates_ofName {s : Scope} {b : Bool} {cs : List (Field × Node)}
    (h : (Node.branch (.name none) cs).WellFormed) :
    Annotates b (.branch (.name none) cs) (ofName s b cs).value := by
  have hSelf : Annotates b (.branch (.name none) cs) [.branch (.name none) cs] :=
    annotates_one rfl h rfl
  unfold ofName
  simp only
  split
  · exact annotates_one rfl (h.recast rfl) rfl
  · split
    · rename_i hDivide
      obtain ⟨ts, rfl⟩ := h.exists_tokens
      split
      · rename_i ns hns
        obtain ⟨t, front, dot, back, rfl, rfl⟩ := exists_of_divide hns
        refine ⟨?_, ?_, ?_, ?_⟩
        · show _ = (Node.nameOf none _).tokens
          simp [Node.tokens]
        · simp [Node.wellFormed_nameOf, Node.WellFormed.token]
        · simp [Node.nameOf, Node.form, NodeKind.form]
        · intro hSingle
          simp [Node.form, NodeKind.form] at hSingle
          simp [hSingle] at hDivide
      · exact hSelf
    · exact hSelf

theorem annotates_ofImport {b : Bool} {cs : List (Field × Node)}
    (h : (Node.branch .importDeclaration cs).WellFormed) :
    Annotates b (.branch .importDeclaration cs) (ofImport (.branch .importDeclaration cs)).value := by
  have hSelf : Annotates b (.branch .importDeclaration cs) [.branch .importDeclaration cs] :=
    annotates_one rfl h rfl
  unfold ofImport
  split
  · split
    · rename_i t ns hName
      obtain ⟨rest, hFiled⟩ : ∃ rest, filed .name cs = .branch (.name t) ns :: rest :=
        List.head?_eq_some_iff.mp hName
      obtain ⟨front, back, rfl, hReplace⟩ := exists_split_of_filed hFiled
      simp only [Node.setField, hReplace]
      refine annotates_one ?_ (.branch ?_ ?_) rfl
      · simp [Node.tokens, Node.tokensOf_eq]
      · simpa [tag, Node.form, NodeKind.form] using h.fills
      · intro c hc
        simp only [List.mem_append, List.mem_cons] at hc
        rcases hc with hc | rfl | hc
        · exact h.child (List.mem_append_left _ hc)
        · exact (h.child (c := (.name, .branch (.name t) ns)) (by simp)).recast rfl
        · exact h.child (List.mem_append_right _ (List.mem_cons_of_mem _ hc))
    · exact hSelf
  · exact hSelf

-- ---------------------------------------------------------------------------
-- Calls
-- ---------------------------------------------------------------------------

/-- A child that is the same, or a call that a method has been attached to. -/
inductive Called : Field × Node → Field × Node → Prop where
  | same (c : Field × Node) : Called c c
  | attached (f : Field) (m : MethodType) (cs : List (Field × Node)) :
      Called (f, .branch (.call none) cs) (f, .branch (.call (some m)) cs)

theorem called_ofCalls (s : Surroundings) (before : List Node) (cs : List (Field × Node)) :
    List.Forall₂ Called cs (ofCalls s before cs).value := by
  induction cs generalizing before with
  | nil => exact .nil
  | cons c rest ih =>
    obtain ⟨f, e⟩ := c
    unfold ofCalls
    simp only
    split
    · split
      · exact .cons (.same _) (ih _)
      · split
        · exact .cons (.attached _ _ _) (ih _)
        · exact .cons (.same _) (ih _)
    · exact .cons (.same _) (ih _)

namespace Called

variable {cs cs' : List (Field × Node)}

theorem tokens (h : List.Forall₂ Called cs cs') : Node.tokensOf cs' = Node.tokensOf cs := by
  induction h with
  | nil => rfl
  | cons hc _ ih => cases hc <;> simp only [Node.tokensOf, Node.tokens, ih]

theorem tags (h : List.Forall₂ Called cs cs') : cs'.map tag = cs.map tag := by
  induction h with
  | nil => rfl
  | cons hc _ ih => cases hc <;> simp [tag, Node.form, NodeKind.form, ih]

theorem wellFormed (h : List.Forall₂ Called cs cs') (hFine : ∀ c ∈ cs, c.2.WellFormed) :
    ∀ c ∈ cs', c.2.WellFormed := by
  induction h with
  | nil => simp
  | @cons c c' cs cs' hc _ ih =>
    intro d hd
    rcases List.mem_cons.mp hd with rfl | hd
    · have hOld := hFine c List.mem_cons_self
      cases hc with
      | same => exact hOld
      | attached f m ns => exact hOld.recast rfl
    · exact ih (fun e he => hFine e (List.mem_cons_of_mem _ he)) d hd

end Called

-- ---------------------------------------------------------------------------
-- Whole trees
-- ---------------------------------------------------------------------------

theorem ofChildren_value (s : Surroundings) (b : Bool) (cs : List (Field × Node)) :
    (ofChildren s b cs).value =
      cs.flatMap fun c => (ofNode s b c.2).value.map fun n => (c.1, n) := by
  induction cs with
  | nil => rfl
  | cons c cs ih =>
    obtain ⟨f, n⟩ := c
    rw [ofChildren, List.flatMap_cons, ← ih]

/-- A node that is neither a name nor a statement nor a header is attributed through its children. -/
theorem ofNode_branch {s : Surroundings} {b : Bool} {k : NodeKind} {cs : List (Field × Node)}
    (hForm : k.form ∉ [Form.packageDeclaration, .importDeclaration, .statement])
    (hName : k ≠ .name none) :
    (ofNode s b (.branch k cs)).value =
      [.branch k (ofChildren (enter s (.branch k cs)) false cs).value] := by
  cases k with
  | name t =>
    cases t with
    | none => exact absurd rfl hName
    | some t => rw [ofNode] <;> simp
  | packageDeclaration | importDeclaration | statement => simp [NodeKind.form] at hForm
  | parameterized | call _ | block | extendsClause | method | classBody | typeDeclaration
  | unit => rw [ofNode] <;> simp

section Children

variable {s : Surroundings} {b : Bool} {cs : List (Field × Node)}
  (h : ∀ c ∈ cs, Annotates b c.2 (ofNode s b c.2).value)

include h

theorem tokens_ofChildren : Node.tokensOf (ofChildren s b cs).value = Node.tokensOf cs := by
  rw [ofChildren_value, Node.tokensOf_eq, Node.tokensOf_eq, List.flatMap_assoc]
  refine List.flatMap_congr ?_
  intro c hc
  rw [List.flatMap_map]
  exact (h c hc).tokens

theorem wellFormed_ofChildren : ∀ c ∈ (ofChildren s b cs).value, c.2.WellFormed := by
  rw [ofChildren_value]
  intro d hd
  obtain ⟨c, hc, hd⟩ := List.mem_flatMap.mp hd
  obtain ⟨m, hm, rfl⟩ := List.mem_map.mp hd
  exact (h c hc).wellFormed m hm

omit h in
theorem tags_ofChildren (h : ∀ c ∈ cs, Annotates false c.2 (ofNode s false c.2).value) :
    (ofChildren s false cs).value.map tag = cs.map tag := by
  rw [ofChildren_value, List.map_flatMap]
  induction cs with
  | nil => rfl
  | cons c cs ih =>
    obtain ⟨m, hm, hForm⟩ := (h c List.mem_cons_self).single (Or.inl rfl)
    rw [List.flatMap_cons, List.map_cons, ih fun d hd => h d (List.mem_cons_of_mem _ hd), hm]
    simp [tag, hForm]

/-- In a statement, only elements come of elements. -/
theorem elements_ofChildren
    (hElements : ∀ c ∈ cs, c.1 = .elements ∧ c.2.form ∈ elementForms) :
    ∀ c ∈ (ofChildren s b cs).value, c.1 = .elements ∧ c.2.form ∈ elementForms := by
  rw [ofChildren_value]
  intro d hd
  obtain ⟨c, hc, hd⟩ := List.mem_flatMap.mp hd
  obtain ⟨m, hm, rfl⟩ := List.mem_map.mp hd
  refine ⟨(hElements c hc).1, ?_⟩
  rcases (h c hc).forms m hm with hForm | ⟨-, hForm⟩
  · exact hForm ▸ (hElements c hc).2
  · simp [hForm, elementForms]

end Children

/-- What a well-formed node becomes has its tokens, and its form but for divided names. -/
theorem annotates_ofNode {s : Surroundings} {b : Bool} {n : Node} (h : n.WellFormed) :
    Annotates b n (ofNode s b n).value := by
  induction h generalizing s b with
  | token t =>
    rw [ofNode]
    exact annotates_one rfl (.token t) rfl
  | @branch k cs hFills hChildren ih =>
    have hFine : (Node.branch k cs).WellFormed := .branch hFills hChildren
    by_cases hName : k = .name none
    · subst hName
      rw [ofNode]
      exact annotates_ofName hFine
    by_cases hForm : k.form ∉ [Form.packageDeclaration, .importDeclaration, .statement]
    · rw [ofNode_branch hForm hName]
      have hInner := fun c hc => ih c hc (s := enter s (.branch k cs)) (b := false)
      refine annotates_one (tokens_ofChildren hInner) (.branch ?_ (wellFormed_ofChildren hInner)) rfl
      rw [tags_ofChildren hInner]
      exact hFills
    · cases k with
      | packageDeclaration =>
        rw [ofNode]
        exact annotates_one rfl hFine rfl
      | importDeclaration =>
        rw [ofNode]
        exact annotates_ofImport hFine
      | statement =>
        rw [ofNode]
        have hInner := fun c hc => ih c hc (s := s) (b := true)
        have hCalls := called_ofCalls s [] (ofChildren s true cs).value
        refine annotates_one ?_ (.branch ?_ ?_) rfl
        · exact (Called.tokens hCalls).trans (tokens_ofChildren hInner)
        · rw [Called.tags hCalls]
          refine fills_only rfl ?_
          intro t ht
          obtain ⟨c, hc, rfl⟩ := List.mem_map.mp ht
          refine elements_ofChildren hInner ?_ c hc
          intro d hd
          obtain ⟨s, hs, hSlot⟩ := hFills.mem (List.mem_map_of_mem hd)
          obtain rfl := List.mem_singleton.mp hs
          exact hSlot
        · exact Called.wellFormed hCalls (wellFormed_ofChildren hInner)
      | name _ | parameterized | call _ | block | extendsClause | method | classBody
      | typeDeclaration | unit => simp [NodeKind.form] at hForm

-- ---------------------------------------------------------------------------
-- Units
-- ---------------------------------------------------------------------------

theorem filed_ofChildren (f : Field) (s : Surroundings) (b : Bool) (cs : List (Field × Node)) :
    filed f (ofChildren s b cs).value = (filed f cs).flatMap fun n => (ofNode s b n).value := by
  rw [ofChildren_value]
  induction cs with
  | nil => rfl
  | cons c cs ih =>
    obtain ⟨g, n⟩ := c
    rw [List.flatMap_cons, filed_append, filed_map, filed_cons, ih]
    split <;> rfl

section Unit

variable (classpath : Classpath) {unit : Node} (h : unit.WellFormed) (hUnit : unit.form = .unit)

include h hUnit

theorem exists_of_ofUnit : ∃ cs s, unit = .branch .unit cs ∧
    s.scope = Scope.ofUnit unit classpath ∧
    (ofUnit classpath unit).value = .branch .unit (ofChildren s false cs).value := by
  obtain ⟨cs, rfl⟩ := Node.exists_children (k := .unit) rfl hUnit
  refine ⟨cs, enter { scope := Scope.ofUnit (.branch .unit cs) classpath } (.branch .unit cs),
    rfl, rfl, ?_⟩
  unfold ofUnit
  simp only
  rw [ofNode_branch (k := .unit) (by simp [NodeKind.form]) (by simp)]
  rfl

omit hUnit in
/-- An attributed unit is well-formed. -/
theorem wellFormed_ofUnit : (ofUnit classpath unit).value.WellFormed := by
  obtain ⟨m, hm, -⟩ := (annotates_ofNode (s := { scope := Scope.ofUnit unit classpath })
    (b := false) h).single (Or.inl rfl)
  have hFine := (annotates_ofNode (s := { scope := Scope.ofUnit unit classpath })
    (b := false) h).wellFormed
  unfold ofUnit
  simp only [hm, List.headD_cons]
  exact hFine m (by rw [hm]; exact List.mem_cons_self)

/-- An attributed unit has the tokens it had before. -/
theorem tokens_ofUnit : (ofUnit classpath unit).value.tokens = unit.tokens := by
  obtain ⟨cs, s, rfl, -, hValue⟩ := exists_of_ofUnit classpath h hUnit
  rw [hValue]
  exact tokens_ofChildren fun c hc => annotates_ofNode (h.child hc)

/-- Attribution leaves the package of a unit alone. -/
theorem package_ofUnit :
    (ofUnit classpath unit).value.field .package = unit.field .package := by
  obtain ⟨cs, s, rfl, -, hValue⟩ := exists_of_ofUnit classpath h hUnit
  rw [hValue, Node.field_branch, Node.field_branch, filed_ofChildren]
  have hForms := (h.fieldwise.2 ⟨.package, .optional, [.packageDeclaration]⟩
    (by simp [NodeKind.slots])).2
  generalize filed .package cs = ns at hForms
  induction ns with
  | nil => rfl
  | cons n ns ih =>
    have hForm := List.mem_singleton.mp (hForms n List.mem_cons_self).1
    obtain ⟨ds, rfl⟩ := Node.exists_children (k := .packageDeclaration) rfl hForm
    rw [List.flatMap_cons, ih fun m hm => hForms m (List.mem_cons_of_mem _ hm), ofNode]
    rfl

end Unit

end Attribution

end SourceMigration
