import SourceMigration.Proofs.Typing.Called
import SourceMigration.Proofs.Typing.Divided

/-!
# SourceMigration — what attribution asks of the surroundings

What becomes of a node depends on its surroundings through the scope, the classes around it and the types
of the variables that it names: a simple name after no point asks for the variable of that name, and
nothing else does, also where a dotted name was divided. So surroundings that agree on the simple names
in a node make the same of it.

## Results

* `ofNode_agrees` — surroundings that agree on the names in a node make the same of the node.
-/

namespace SourceMigration

/-- Two surroundings with the same scope and the same classes that tell the same types for the
variables of some names. -/
structure Surroundings.Agrees (names : String → Prop) (s s' : Surroundings) : Prop where
  scope : s'.scope = s.scope
  classes : s'.classes = s.classes
  locals : ∀ x, names x → s'.locals.findSome? (Variables.typeOf? · x) =
    s.locals.findSome? (Variables.typeOf? · x)

/-- In a run listed backwards, the simple names after no point are among some names. -/
def Heeds (names : String → Prop) : List Node → Prop
  | [] => True
  | e :: before =>
    (∀ cs x, e = .branch (.name none) cs → e.simpleNameOf? = some x → pointed before = false → names x) ∧
      Heeds names before

namespace Surroundings

variable {names : String → Prop} {s s' : Surroundings}

theorem Agrees.variableType (h : Agrees names s s') {x : String} (hx : names x) :
    s'.variableType? x = s.variableType? x := by
  rw [variableType?, variableType?, h.locals x hx, h.scope, h.classes]

/-- The type of an expression is the same where the names in it are. -/
theorem Agrees.expressionType (h : Agrees names s s') {before : List Node} (hHeeds : Heeds names before) :
    s'.expressionType? before = s.expressionType? before := by
  induction hLength : before.length using Nat.strongRecOn generalizing before with
  | ind length ih =>
    cases before with
    | nil => rfl
    | cons e before =>
      cases e with
      | token word => simp only [expressionType?, h.scope, h.classes]
      | branch k cs =>
        cases k with
        | name type =>
          cases type with
          | some type => rfl
          | none =>
            cases hName : (Node.branch (.name none) cs).simpleNameOf? with
            | none => simp [expressionType?, hName]
            | some x =>
              cases hPoint : pointed before with
              | false =>
                rw [expressionType_variable hName hPoint, expressionType_variable hName hPoint,
                  h.variableType (hHeeds.1 cs x rfl hName hPoint)]
              | true =>
                obtain ⟨dot, e, rest, rfl, hDot⟩ := exists_of_pointed hPoint
                have hRest := ih (e :: rest).length (by rw [← hLength]; simp) hHeeds.2.2 rfl
                rw [expressionType_member hName hDot, expressionType_member hName hDot, hRest, h.scope]
        | parameterized => rfl
        | _ => rfl

theorem Agrees.calledMethod (h : Agrees names s s') (name : String) (owner : TypeName)
    (after : List Node) : s'.calledMethod? name owner after = s.calledMethod? name owner after := by
  rw [calledMethod?, calledMethod?, h.scope]

theorem Agrees.methodAt (h : Agrees names s s') {before : List Node} (hHeeds : Heeds names before)
    (call : Node) (after : List Node) : s'.methodAt? before call after = s.methodAt? before call after := by
  have hReceiver : s'.receiverType? before = s.receiverType? before := by
    cases before with
    | nil => exact congrArg List.head? h.classes
    | cons dot before => rw [receiverType?, receiverType?, h.expressionType hHeeds.2, h.classes]
  simp only [methodAt?, hReceiver, h.calledMethod]

end Surroundings

namespace Attribution

variable {names : String → Prop} {s s' : Surroundings}

-- ---------------------------------------------------------------------------
-- Runs
-- ---------------------------------------------------------------------------

/-- An element stays as it is, or it is a call. -/
theorem attach_eq_or (before : List Node) (e : Node) (after : List Node) :
    attach s before e after = e ∨
      (∃ cs, e = .branch (.call none) cs) ∧ ∃ m cs, attach s before e after = .branch (.call m) cs := by
  unfold attach
  split
  · exact Or.inr ⟨⟨_, rfl⟩, _, _, rfl⟩
  · exact Or.inl rfl

/-- An element that gets a method is as much of a point as before. -/
theorem pointed_attach (front before : List Node) (e : Node) (rest after : List Node) :
    pointed (front ++ attach s before e after :: rest) = pointed (front ++ e :: rest) := by
  rcases attach_eq_or (s := s) before e after with hSelf | ⟨⟨cs, rfl⟩, m, ds, hCall⟩
  · rw [hSelf]
  · rw [hCall]
    match front, rest with
    | [], [] => rfl
    | [], _ :: _ => rfl
    | [_], _ => rfl
    | _ :: _ :: _, _ => rfl

/-- Attaching a method to an element changes no names. -/
theorem heeds_attach {front before : List Node} {e : Node} {rest after : List Node}
    (h : Heeds names (front ++ e :: rest)) :
    Heeds names (front ++ attach s before e after :: rest) := by
  induction front with
  | nil =>
    refine ⟨fun cs x hEq hName hPoint => ?_, h.2⟩
    rcases attach_eq_or (s := s) before e after with hSelf | ⟨-, m, ds, hCall⟩
    · rw [hSelf] at hEq hName
      exact h.1 cs x hEq hName hPoint
    · cases hCall.symm.trans hEq
  | cons d front ih =>
    refine ⟨fun cs x hEq hName hPoint => h.1 cs x hEq hName ?_, ih h.2⟩
    exact (pointed_attach front before e rest after).symm.trans hPoint

theorem heeds_of_append {front rest : List Node} (h : Heeds names (front ++ rest)) : Heeds names rest := by
  induction front with
  | nil => exact h
  | cons d front ih => exact ih h.2

/-- Calls get the same methods from surroundings that agree. -/
theorem ofCalls_agrees (h : s.Agrees names s') {before : List Node} {cs : List (Field × Node)}
    (hHeeds : Heeds names ((cs.map Prod.snd).reverse ++ before)) :
    (ofCalls s' before cs).value = (ofCalls s before cs).value := by
  induction cs generalizing before with
  | nil => rfl
  | cons c cs ih =>
    obtain ⟨f, e⟩ := c
    rw [List.map_cons, List.reverse_cons, List.append_assoc, List.singleton_append] at hHeeds
    have hBefore : Heeds names before := (heeds_of_append hHeeds).2
    have hAttach : attach s' before e (cs.map Prod.snd) = attach s before e (cs.map Prod.snd) := by
      unfold attach
      split
      · rw [h.methodAt hBefore]
      · rfl
    rw [ofCalls_cons, ofCalls_cons, hAttach, ih (heeds_attach hHeeds)]

/-- What a name directly in a statement becomes asks for no other variable than the name itself. -/
theorem heeds_ofName {ts : List Token} (h : Chain ts) {before : List Node} (hBefore : Heeds names before)
    (hName : ∀ x, (Node.nameOf none ts).simpleNameOf? = some x → names x) :
    Heeds names ((ofName s.scope true (ts.map fun t => (.tokens, .token t))).value.reverse ++ before) := by
  have hWhole : Heeds names (Node.nameOf none ts :: before) :=
    ⟨fun _ x _ hSimple _ => hName x hSimple, hBefore⟩
  obtain ⟨t, links, rfl, ht, hLinks⟩ := h
  unfold ofName
  simp only [Bool.true_and, decide_eq_true_eq]
  rw [← Node.nameOf]
  split
  · exact ⟨fun cs x hEq => by simp at hEq, hBefore⟩
  · split
    · have hParts : (Node.nameOf none (t :: links)).nameParts = t.text ::
          links.filterMap fun t => if t.kind = .identifier then some t.text else none := by
        simp [Node.nameParts, Node.nameOf, filed, List.filterMap_map, ht]
      have hLength := length_links hLinks
      have hCount : 2 * ((Node.nameOf none (t :: links)).nameParts.length - 1) ≤ links.length := by
        rw [hParts, List.length_cons]
        omega
      rcases divide_spec (s := s.scope) hLinks hCount with
        ⟨k, u, dot, back, -, -, hDot, -, -, hDivided⟩ | ⟨hNot, -⟩
      · -- the rest of the name stands after the point
        rw [hDivided]
        have hPoint : (Node.token dot).isToken "." = true := by
          simp [Node.isToken, Token.spells, hDot.1, hDot.2]
        have hNoName {k : NodeKind} (hKind : k ≠ .name none) (ds : List (Field × Node))
            (cs : List (Field × Node)) (x : String) (hEq : .branch k ds = Node.branch (.name none) cs)
            (_ : (Node.branch k ds).simpleNameOf? = some x) (_ : pointed before = false) : names x :=
          absurd (Node.branch.inj hEq).1 hKind
        refine ⟨fun cs x _ _ hNoPoint => ?_, fun cs x hEq => ?_, hNoName (by simp) _, hBefore⟩
        · cases hPoint.symm.trans hNoPoint
        · cases hEq
      · rw [hNot]
        exact hWhole
    · exact hWhole

/-- What the elements of a statement become asks for no other variables than the names in them. -/
theorem heeds_ofChildren {cs : List (Field × Node)}
    (h : ∀ c ∈ cs, c.2.WellFormed ∧ c.2.Chained ∧ ∀ x, c.2.simpleNameOf? = some x → names x)
    {before : List Node} (hBefore : Heeds names before) :
    Heeds names (((ofChildren s true cs).value.map Prod.snd).reverse ++ before) := by
  induction cs generalizing before with
  | nil => exact hBefore
  | cons c cs ih =>
    obtain ⟨f, n⟩ := c
    obtain ⟨hFine, hChained, hNames⟩ := h _ List.mem_cons_self
    have hFirst : Heeds names ((ofNode s true n).value.reverse ++ before) := by
      by_cases hForm : n.form = .name
      · obtain ⟨type, cs, rfl⟩ := Node.exists_name hForm
        cases type with
        | none =>
          obtain ⟨ts, rfl⟩ := hFine.exists_tokens
          rw [ofNode]
          refine heeds_ofName ?_ hBefore hNames
          cases hChained with
          | branch hName _ => simpa [Node.tokensOf_eq, List.flatMap_map, Node.tokens] using hName rfl
        | some type =>
          rw [ofNode_branch (by simp [NodeKind.form]) (by simp)]
          exact ⟨fun cs x hEq => by simp at hEq, hBefore⟩
      · obtain ⟨m, hm, hSame⟩ := (annotates_ofNode (s := s) (b := true) hFine).single (Or.inr hForm)
        rw [hm]
        refine ⟨fun cs x hEq => absurd ?_ hForm, hBefore⟩
        rw [← hSame, hEq]
        rfl
    have hRest := ih (fun d hd => h d (List.mem_cons_of_mem _ hd)) hFirst
    have hEq : ((ofChildren s true ((f, n) :: cs)).value.map Prod.snd).reverse ++ before =
        ((ofChildren s true cs).value.map Prod.snd).reverse ++
          ((ofNode s true n).value.reverse ++ before) := by
      simp [ofChildren, Function.comp_def]
    rwa [hEq]

-- ---------------------------------------------------------------------------
-- Whole trees
-- ---------------------------------------------------------------------------

/-- Surroundings that agree still do so within a node. -/
theorem agrees_enter (h : s.Agrees names s') (n : Node) : (enter s n).Agrees names (enter s' n) := by
  unfold enter
  split
  · exact ⟨h.scope, by rw [h.scope, h.classes], h.locals⟩
  · refine ⟨h.scope, h.classes, fun x hx => ?_⟩
    rw [List.findSome?_cons, List.findSome?_cons, h.scope, h.locals x hx]
  · exact h

/-- Surroundings that agree on the simple names in a node make the same of it. -/
theorem ofNode_agrees {b : Bool} {n : Node} (h : n.WellFormed) (hChained : n.Chained)
    (hAgrees : s.Agrees names s') (hNames : ∀ m ∈ n.walk, ∀ x, m.simpleNameOf? = some x → names x) :
    (ofNode s' b n).value = (ofNode s b n).value := by
  induction h generalizing s s' b with
  | token t => rfl
  | @branch k cs hFills hChildren ih =>
    have hFine : (Node.branch k cs).WellFormed := .branch hFills hChildren
    have hBelow {c : Field × Node} (hc : c ∈ cs) :
        ∀ m ∈ c.2.walk, ∀ x, m.simpleNameOf? = some x → names x := by
      intro m hm
      exact hNames m (Node.mem_walk_of_child hc hm)
    have hInner {s s' : Surroundings} (h : s.Agrees names s') (b : Bool) :
        (ofChildren s' b cs).value = (ofChildren s b cs).value := by
      rw [ofChildren_value, ofChildren_value]
      refine List.flatMap_congr fun c hc => ?_
      rw [ih c hc (hChained.child hc) h (hBelow hc)]
    by_cases hName : k = .name none
    · subst hName
      rw [ofNode, ofNode, hAgrees.scope]
    by_cases hForm : k.form ∉ [Form.packageDeclaration, .importDeclaration, .statement]
    · rw [ofNode_branch hForm hName, ofNode_branch hForm hName, hInner (agrees_enter hAgrees _) false]
    · cases k with
      | packageDeclaration => rw [ofNode, ofNode]
      | importDeclaration => rw [ofNode, ofNode]
      | statement =>
        have hHeeds : Heeds names (((ofChildren s true cs).value.map Prod.snd).reverse ++ []) :=
          heeds_ofChildren
            (fun c hc => ⟨hFine.child hc, hChained.child hc, hBelow hc c.2 (mem_walk_self c.2)⟩)
            trivial
        rw [ofNode, ofNode]
        simp only [hInner hAgrees true, ofCalls_agrees hAgrees hHeeds]
      | name _ | parameterized | call _ | block | extendsClause | method | classBody
      | typeDeclaration | unit => simp [NodeKind.form] at hForm

end Attribution

end SourceMigration
