import SourceMigration.Proofs.Typing.Outlines

/-!
# SourceMigration — members in another order

Two runs of attribution are compared, over a unit and over the same unit with the members of one type in
another order. Both go through the same layers around the body; on the way the surroundings match, so that
all that stands beside the place becomes the same, and so does each of the members in the end. What may
tell the runs apart is the order in the tables of the scope, and in the lists of variables of the methods
around the body, and only where two of the members contradict each other there.

One contradiction is no fault of the unit: methods of one name may return different types if their
parameters differ. Calls are not told apart by their arguments, and the last of these methods counts.

## Results

* `members_reordered` — without a contradiction, the order of members makes no difference.
-/

namespace SourceMigration

open Attribution (recorded recordedAt)

/-- Two members whose order counts: they clash in the tables of the scope where their type is declared,
or they declare a variable with different types within the same method. -/
def Clash (scope : Scope) (c : Context) (m m' : Node) : Prop :=
  (∃ owner ∈ bodyOwner? scope.package c, Clashes scope owner m m') ∨
    (c.any fun l => l.kind = .method) = true ∧ Dispute (recorded scope m) (recorded scope m')

instance (scope : Scope) (c : Context) (m m' : Node) : Decidable (Clash scope c m m') :=
  inferInstanceAs (Decidable (_ ∨ _ ∧ _))

theorem Clash.symm {scope : Scope} {c : Context} {m m' : Node} (h : Clash scope c m m') :
    Clash scope c m' m := by
  rcases h with ⟨owner, hOwner, ⟨d, hd, d', hd', hEq⟩ | hMethods | hFields⟩ | ⟨hMethod, hVariables⟩
  · exact .inl ⟨owner, hOwner, .inl ⟨d', hd', d, hd, hEq.imp Eq.symm Eq.symm⟩⟩
  · exact .inl ⟨owner, hOwner, .inr (.inl hMethods.symm)⟩
  · exact .inl ⟨owner, hOwner, .inr (.inr hFields.symm)⟩
  · exact .inr ⟨hMethod, hVariables.symm⟩

namespace Attribution

variable {r : Reordering} {s s' : Surroundings} {n m : Node}

-- ---------------------------------------------------------------------------
-- Variables of the methods around
-- ---------------------------------------------------------------------------

/-- What is recorded for twins, but for the order, where it is so for the members themselves. -/
theorem recorded_twin (scope : Scope) (hHere : Lasts Eq (recorded scope r.before) (recorded scope r.after))
    (h : Twin r n m) : Lasts Eq (recorded scope n) (recorded scope m) := by
  induction h with
  | same => exact piecewise_lasts_eq.refl _
  | here => exact hHere
  | @within l n m h ih =>
    have hSelf := Scope.recordedAt_twin scope (.within l h)
    rw [Layer.fill, Layer.fill] at hSelf ⊢
    rw [recorded_branch, recorded_branch, hSelf, Layer.children, Layer.children, List.flatMap_append,
      List.flatMap_append, List.flatMap_cons, List.flatMap_cons]
    exact piecewise_lasts_eq.append (piecewise_lasts_eq.refl _)
      (piecewise_lasts_eq.append (piecewise_lasts_eq.refl _)
        (piecewise_lasts_eq.append ih (piecewise_lasts_eq.refl _)))

theorem recorded_body (scope : Scope) (r : Reordering) (members : List Node) :
    recorded scope (r.body members) = members.flatMap (recorded scope) := by
  have hToken (t : Token) : recorded scope (.token t) = [] := rfl
  rw [Reordering.body, recorded_branch]
  simp [recordedAt, Node.form, NodeKind.form, List.flatMap_map, hToken]

/-- The variables of a method within which some members stand in another order. -/
theorem methodVariables_twin (scope : Scope)
    (hHere : Lasts Eq (recorded scope r.before) (recorded scope r.after)) (h : Twin r n m) :
    Lasts Eq (methodVariables scope n) (methodVariables scope m) := by
  have hVariables (n : Node) : methodVariables scope n =
      Variables.declared scope.resolve (n.field .parameters) ++ (n.field .body).flatMap (recorded scope) :=
    rfl
  rw [hVariables, hVariables, Twin.declared scope (h.field (by simp))]
  refine piecewise_lasts_eq.append (piecewise_lasts_eq.refl _) (piecewise_lasts_eq.flatMap ?_)
  exact (h.field (by simp)).imp fun _ _ hTwin => recorded_twin scope hHere hTwin

/-- Surroundings that match still do so within twins. -/
theorem matches_enter_twin (h : s.Matches s') (hTwin : Twin r n m)
    (hHere : n.form = .method → Lasts Eq (recorded s.scope r.before) (recorded s.scope r.after)) :
    (enter s n).Matches (enter s' m) := by
  have hName := hTwin.declaredName
  obtain ⟨t, rfl, rfl⟩ | ⟨k, cs, ds, rfl, rfl⟩ := hTwin.shape
  · exact h
  · cases k with
    | typeDeclaration =>
      refine ⟨h.scope, ?_, h.locals⟩
      simp only [enter, h.scope.package, h.classes, hName]
    | method =>
      refine ⟨h.scope, h.classes, fun x => ?_⟩
      have hSame : methodVariables s'.scope (.branch .method ds) =
          methodVariables s.scope (.branch .method ds) := by
        simp only [methodVariables, h.scope.resolve]
      have hLast : Variables.typeOf? (methodVariables s.scope (.branch .method ds)) x =
          Variables.typeOf? (methodVariables s.scope (.branch .method cs)) x :=
        ((methodVariables_twin s.scope (hHere rfl) hTwin).lookup x).symm
      simp only [enter, List.findSome?_cons, hSame, hLast, h.locals]
    | _ => exact h

-- ---------------------------------------------------------------------------
-- One layer
-- ---------------------------------------------------------------------------

/-- The forms of what holds nothing but words. -/
def wordForms : List Form := [.token, .name, .call, .importDeclaration]

theorem forms_of_words {k : NodeKind} (h : k.form ∈ wordForms) :
    ∀ slot ∈ k.slots, slot.forms ⊆ wordForms := by
  cases k <;> simp_all [wordForms, NodeKind.form, NodeKind.slots]

/-- Around the body of a type stands nothing that holds words only. -/
theorem form_around {c : Context} (hn : n.form = .classBody) (h : (c.fill n).WellFormed) :
    (c.fill n).form ∉ wordForms := by
  induction c with
  | nil => simp [hn, wordForms]
  | cons l c ih =>
    intro hMem
    obtain ⟨slot, hSlot, -, hForm⟩ := h.fills.mem (List.mem_map_of_mem (Context.mem_children l _))
    exact ih (wellFormed_fill h) (forms_of_words hMem slot hSlot hForm)

-- ---------------------------------------------------------------------------
-- The whole way
-- ---------------------------------------------------------------------------

/-- What a member becomes. -/
def attributed (s : Surroundings) (m : Node) : Node := (ofNode s false m).value.headD m

/-- Outside of statements, one node comes of every node. -/
theorem value_attributed (s : Surroundings) (m : Node) : (ofNode s false m).value = [attributed s m] := by
  have hOne : ∃ m', (ofNode s false m).value = [m'] := by
    cases m with
    | token t => exact ⟨_, rfl⟩
    | branch k cs =>
      by_cases hName : k = .name none
      · subst hName
        rw [ofNode, ofName]
        split <;> exact ⟨_, rfl⟩
      by_cases hForm : k.form ∉ [Form.packageDeclaration, .importDeclaration, .statement]
      · exact ⟨_, ofNode_branch hForm hName⟩
      · cases k with
        | packageDeclaration | statement =>
          rw [ofNode]
          exact ⟨_, rfl⟩
        | importDeclaration =>
          rw [ofNode, ofImport]
          split
          · split <;> exact ⟨_, rfl⟩
          · exact ⟨_, rfl⟩
        | name _ | parameterized | call _ | block | extendsClause | method | classBody
        | typeDeclaration | unit => simp [NodeKind.form] at hForm
  obtain ⟨m', hm⟩ := hOne
  rw [attributed, hm, List.headD_cons]

/-- The body of a type is attributed member by member. -/
theorem ofNode_body (s : Surroundings) (b : Bool) (r : Reordering) (members : List Node) :
    (ofNode s b (r.body members)).value = [r.body (members.map (attributed s))] := by
  have hSame : enter s (r.body members) = s := rfl
  rw [Reordering.body] at hSame
  rw [Reordering.body, ofNode_branch (by simp [NodeKind.form]) (by simp), hSame, ofChildren_value]
  simp only [value_attributed, List.map_singleton, List.flatMap_cons, List.flatMap_append, List.flatMap_map,
    List.flatMap_nil, List.append_nil, List.singleton_append]
  simp [Reordering.body, attributed, ofNode, ← List.map_eq_flatMap]

/-- What becomes of a body with its members in one order and in another. -/
theorem body_reordered (hFine : r.before.WellFormed) (hMatches : s.Matches s') (b : Bool) :
    (∀ m ∈ r.old, (attributed s m).tokens = m.tokens) ∧
      (ofNode s b r.before).value = [(r.map (attributed s)).before] ∧
      (ofNode s' b r.after).value = [(r.map (attributed s)).after] := by
  refine ⟨fun m hm => ?_, ofNode_body s b r r.old, ?_⟩
  · have hMember : m.WellFormed := hFine.of_field (by rwa [Reordering.before, r.members_body])
    have hTokens := (annotates_ofNode (s := s) (b := false) hMember).tokens
    simpa [value_attributed] using hTokens
  · have hSame : attributed s' = attributed s := by
      funext m
      rw [attributed, attributed, ofNode_matches hMatches]
    rw [← hSame]
    exact ofNode_body s' b r r.new

/-- What becomes of a tree with some members in one order and in another. -/
theorem ofNode_reordered {c : Context} (hFine : (c.fill r.before).WellFormed) (hMatches : s.Matches s')
    (hVariables : (c.any fun l => l.kind = .method) = true →
      Lasts Eq (recorded s.scope r.before) (recorded s.scope r.after)) (b : Bool) :
    ∃ d f, List.Forall₂ Layer.Attributed c d ∧ (∀ m ∈ r.old, (f m).tokens = m.tokens) ∧
      (ofNode s b (c.fill r.before)).value = [Context.fill d (r.map f).before] ∧
      (ofNode s' b (c.fill r.after)).value = [Context.fill d (r.map f).after] := by
  induction c generalizing s s' b with
  | nil => exact ⟨[], attributed s, .nil, body_reordered hFine hMatches b⟩
  | cons l c ih =>
    have hFill (n : Node) : l.fill n = .branch l.kind (l.children n) := rfl
    by_cases hPackage : l.kind = .packageDeclaration
    · -- the declaration of a package is left alone, with all that stands in it
      refine ⟨l :: c, id, List.forall₂_same.mpr fun _ _ => ⟨rfl, rfl, rfl, rfl⟩, fun _ _ => rfl, ?_, ?_⟩
      · rw [Reordering.map_id, Context.fill_cons, hFill, hPackage, ofNode]
      · rw [Reordering.map_id, Context.fill_cons, hFill, hPackage, ofNode]
    · have hTwin : Twin r (l.fill (Context.fill c r.before)) (l.fill (Context.fill c r.after)) :=
        .fill (l :: c) .here
      have hEnter := matches_enter_twin hMatches hTwin fun hForm => hVariables <| by
        obtain ⟨cs, hEq⟩ := Node.exists_children (k := .method) rfl hForm
        simp [(Node.branch.inj hEq).1]
      obtain ⟨d, f, hAll, hTokens, hValue, hValue'⟩ := ih (wellFormed_fill hFine) hEnter
        (fun hMethod => by
          rw [scope_enter]
          exact hVariables (by simp only [List.any_cons, hMethod, Bool.or_true]))
        (l.kind.form == .statement)
      have hWords := form_around (n := r.before) rfl hFine
      have hOpen : l.kind.form ∉ closedForms := by
        rw [Context.fill_cons, hFill, Node.form] at hWords
        cases hKind : l.kind <;> simp_all [closedForms, wordForms, NodeKind.form]
      have hCall : ∀ cs, Context.fill d (r.map f).before ≠ .branch (.call none) cs := by
        have hInner := form_around (n := r.before) rfl (wellFormed_fill hFine)
        cases hAll with
        | nil => simp [Reordering.before, Reordering.body]
        | @cons k k' c d hLayer _ =>
          intro cs hEq
          refine hInner ?_
          rw [Context.fill_cons, Layer.fill] at hEq ⊢
          rw [Node.form, ← hLayer.kind, (Node.branch.inj hEq).1]
          simp [wordForms, NodeKind.form]
      obtain ⟨l', hLayer, hEq, hEq'⟩ := ofNode_layer_twin (b := b) hFine hOpen hCall hMatches hEnter
        (.fill d (.here (r := r.map f))) hValue hValue'
      exact ⟨l' :: d, f, .cons hLayer hAll, hTokens, hEq, hEq'⟩

-- ---------------------------------------------------------------------------
-- Units
-- ---------------------------------------------------------------------------

/-- Among the imports of a unit stand imports only. -/
theorem field_ne_imports {l : Layer} (hFine : (l.fill n).WellFormed) (hUnit : (l.fill n).form = .unit)
    (hWords : n.form ∉ wordForms) : l.field ≠ .imports := by
  intro hField
  obtain ⟨slot, hSlot, hIs, hHere⟩ := hFine.fills.mem (List.mem_map_of_mem (Context.mem_children l n))
  have hKind : l.kind = .unit := by
    obtain ⟨cs, hEq⟩ := Node.exists_children (k := .unit) rfl hUnit
    exact (Node.branch.inj hEq).1
  rw [tag, hField] at hIs
  simp only [hKind, NodeKind.slots, List.mem_cons, List.not_mem_nil, or_false] at hSlot
  rcases hSlot with rfl | rfl | rfl | rfl
  · cases hIs
  · have hForm : n.form = .importDeclaration := List.mem_singleton.mp hHere
    exact hWords (by simp [hForm, wordForms])
  · cases hIs
  · cases hIs

/-- The order of the members of a type makes no difference to what they become, nor to what becomes of all
that stands around them, but for members that clash: these have to stay in their order. -/
theorem members_reordered (classpath : Classpath) {tree : Node} {c : Context}
    (h : tree.Fresh) (hTree : tree = c.fill r.before)
    (hShuffles : Shuffles (Clash (Scope.ofUnit tree classpath) c) r.old r.new) :
    ∃ d f, List.Forall₂ Layer.Attributed c d ∧ (∀ m ∈ r.old, (f m).tokens = m.tokens) ∧
      (ofUnit classpath tree).value = Context.fill d (r.map f).before ∧
      (ofUnit classpath (c.fill r.after)).value = Context.fill d (r.map f).after := by
  have hFine := h.wellFormed
  have hForm := h.isUnit
  subst hTree
  cases c with
  | nil => simp [Reordering.before, Reordering.body, Node.form, NodeKind.form] at hForm
  | cons l c =>
    have hImports := field_ne_imports hFine hForm (form_around (n := r.before) rfl (wellFormed_fill hFine))
    have hScope := Scope.matches_ofUnit classpath hImports fun o ho =>
      hShuffles.mono fun m m' hClash => .inl ⟨o, ho, hClash⟩
    have hVariables (hMethod : ((l :: c).any fun l => l.kind = .method) = true) :
        Lasts Eq (recorded (Scope.ofUnit (Context.fill (l :: c) r.before) classpath) r.before)
          (recorded (Scope.ofUnit (Context.fill (l :: c) r.before) classpath) r.after) := by
      rw [Reordering.before, Reordering.after, recorded_body, recorded_body]
      exact hShuffles.flatMap piecewise_lasts_eq fun m m' hApart =>
        lasts_of_not_dispute fun hDispute => hApart (.inr ⟨hMethod, hDispute⟩)
    have hMatches : Surroundings.Matches
        { scope := Scope.ofUnit (Context.fill (l :: c) r.before) classpath }
        { scope := Scope.ofUnit (Context.fill (l :: c) r.after) classpath } :=
      ⟨hScope, rfl, fun _ => rfl⟩
    obtain ⟨d, f, hAll, hTokens, hValue, hValue'⟩ := ofNode_reordered hFine hMatches hVariables false
    refine ⟨d, f, hAll, hTokens, ?_, ?_⟩
    · rw [ofUnit, hValue]
      rfl
    · rw [ofUnit, hValue']
      rfl

/-- The members of a body from the last to the first. -/
def reversal (body : Node) : Reordering :=
  { opening := (body.tokenAt? .opening).getD default
    old := body.field .members
    new := (body.field .members).reverse
    closing := (body.tokenAt? .closing).getD default }

open Draft in
/-- Some members, among them a type and methods of one name that return the same type. -/
def overloaded : Sample := .ofDraft (node "program" [
  classOf "A" none (braced "class_body" [
    fieldOf (typeWord "String" " ") "s",
    methodOf (typeWord "String" " ") "m" [] (braced "block" [returning (word "s" " ")]),
    methodOf (typeWord "String" " ") "m" [parameterOf (typeWord "B") "b"] (braced "block" [
      returning (accessOf (word "b" " ") "s")]),
    classOf "B" none (braced "class_body" [fieldOf (typeWord "String" " ") "s"]) " ",
    methodOf voidType "f" [] (braced "block" [asStatement (callOn (callOf "m" [] " ") "trim" [])])])]) "\n"

set_option maxRecDepth 100000 in
theorem members_reordered_overloaded : ∃ (tree : Node) (c d : Context) (r : Reordering)
    (f : Node → Node), overloaded.unit? = some tree ∧ tree.Fresh ∧ tree = Context.fill c r.before ∧
    r.old.length = 5 ∧ r.new = r.old.reverse ∧
    (ofUnit ⟨defaultStubs⟩ tree).value = Context.fill d (r.map f).before ∧
    (ofUnit ⟨defaultStubs⟩ (Context.fill c r.after)).value = Context.fill d (r.map f).after := by
  have hFound : (overloaded.unit?.map fun tree =>
      (Context.places tree).any fun p => decide ((reversal p.2).before = p.2 ∧
        (reversal p.2).old.length = 5 ∧ (reversal p.2).old.Pairwise fun m m' =>
          ¬ Clash (Scope.ofUnit tree ⟨defaultStubs⟩) p.1 m m')) = some true := by decide +kernel
  obtain ⟨tree, hTree, hFound⟩ := Option.map_eq_some_iff.mp hFound
  have hFresh := Parsing.fresh_of_sample (by decide +kernel) hTree
  simp only [List.any_eq_true, decide_eq_true_eq] at hFound
  obtain ⟨⟨c, body⟩, hPlace, hBody, hLength, hApart⟩ := hFound
  have hFill : tree = Context.fill c (reversal body).before := by
    rw [hBody, Context.fill_of_mem_places hPlace]
  obtain ⟨d, f, -, -, hValue, hValue'⟩ := members_reordered ⟨defaultStubs⟩ hFresh hFill
    (shuffles_of_perm (List.reverse_perm _).symm (fun _ _ => Clash.symm) hApart)
  exact ⟨tree, c, d, reversal body, f, hTree, hFresh, hFill, hLength, rfl, hValue, hValue'⟩

end Attribution

end SourceMigration
