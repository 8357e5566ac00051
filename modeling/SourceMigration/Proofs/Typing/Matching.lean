import SourceMigration.Proofs.Typing.Balanced
import SourceMigration.Proofs.Typing.Elements
import SourceMigration.Proofs.Typing.Statements
import SourceMigration.Proofs.Typing.Twins

/-!
# SourceMigration — surroundings in which everything means the same

Attribution asks a scope what a name means, which member a type has and what stands above a class, never
how the tables behind these answers are made up. So surroundings whose scopes give the same answers, with
the same classes around and the same types for the variables in sight, make the same of every node. And a
twin among the elements of a statement makes no difference to the elements beside it, for they ask for its
surface only.

## Results

* `Surroundings.Matches.methodAt` — between twins, a call gets the same method.
* `ofNode_matches`                — what becomes of a node in surroundings that match.
* `exists_of_ofCalls_twin`        — a statement with a twin among its elements.
* `ofNode_layer_twin`             — one layer around twins is attributed in one way.
-/

namespace SourceMigration

/-- Two scopes in which every name means the same, and every type has the same members. -/
structure Scope.Matches (s s' : Scope) : Prop where
  package : s'.package = s.package
  resolveParts : s'.resolveParts = s.resolveParts
  field : s'.fieldType? = s.fieldType?
  method : s'.method? = s.method?
  known : ∀ t, (s'.class? t).isSome = (s.class? t).isSome
  supertype : ∀ t, (s'.class? t).bind ClassInfo.extends? = (s.class? t).bind ClassInfo.extends?

/-- The same of surroundings. -/
structure Surroundings.Matches (s s' : Surroundings) : Prop where
  scope : s.scope.Matches s'.scope
  classes : s'.classes = s.classes
  locals : ∀ x, s'.locals.findSome? (Variables.typeOf? · x) = s.locals.findSome? (Variables.typeOf? · x)

theorem Scope.Matches.refl (s : Scope) : s.Matches s := ⟨rfl, rfl, rfl, rfl, fun _ => rfl, fun _ => rfl⟩

theorem Surroundings.Matches.refl (s : Surroundings) : s.Matches s := ⟨.refl s.scope, rfl, fun _ => rfl⟩

variable {r : Reordering}

theorem Scope.Matches.resolve {s s' : Scope} (h : s.Matches s') : s'.resolve = s.resolve := by
  funext n
  rw [Scope.resolve, Scope.resolve, h.resolveParts]

-- ---------------------------------------------------------------------------
-- Receivers
-- ---------------------------------------------------------------------------

namespace Surroundings

variable {s s' : Surroundings} {xs ys : List Node}

theorem Matches.variableType (h : s.Matches s') (x : String) : s'.variableType? x = s.variableType? x := by
  rw [variableType?, variableType?, h.locals, h.scope.field, h.classes]

/-- Going back over twins, a parenthesis is matched at the same place. -/
theorem beforeOpening_twin (h : List.Forall₂ (Twin r) xs ys) (depth : Nat) :
    Option.Rel (List.Forall₂ (Twin r)) (beforeOpening? depth xs) (beforeOpening? depth ys) := by
  induction h generalizing depth with
  | nil => exact .none
  | cons hHead hRest ih =>
    rw [beforeOpening?, beforeOpening?, hHead.isToken, hHead.isToken]
    split
    · exact ih _
    · split
      · split
        · exact .some hRest
        · exact ih _
      · exact ih _

theorem pointed_twin (h : List.Forall₂ (Twin r) xs ys) : pointed ys = pointed xs := by
  cases h with
  | nil => rfl
  | cons hDot hRest =>
    cases hRest with
    | nil => rfl
    | cons _ _ => exact hDot.isToken "."

/-- The type of an expression that ends with a word or a sign. -/
theorem Matches.expressionType_word (h : s.Matches s') (hRun : List.Forall₂ (Twin r) xs ys) (t : Token) :
    s'.expressionType? (.token t :: ys) = s.expressionType? (.token t :: xs) := by
  have hSuper (o : Option TypeName) : (o.bind s'.scope.class?).bind ClassInfo.extends? =
      (o.bind s.scope.class?).bind ClassInfo.extends? := by
    cases o with
    | none => rfl
    | some t => exact h.scope.supertype t
  have hOpening := beforeOpening_twin hRun 1
  simp only [expressionType?, h.classes, hSuper]
  generalize beforeOpening? 1 xs = x at hOpening ⊢
  generalize beforeOpening? 1 ys = y at hOpening ⊢
  congr 3
  -- what stands before the list of arguments is the same call, or none in both
  cases hOpening with
  | none => rfl
  | some hCall =>
    cases hCall with
    | nil => rfl
    | cons hCallee _ =>
      obtain ⟨t, rfl, rfl⟩ | ⟨k, cs, ds, rfl, rfl⟩ := hCallee.shape
      · rfl
      · cases k with
        | call m => cases m <;> rfl
        | _ => rfl

/-- The type of an expression that ends with a type with arguments. -/
theorem expressionType_parameterized {cs ds : List (Field × Node)}
    (h : Twin r (.branch .parameterized cs) (.branch .parameterized ds)) :
    s'.expressionType? (.branch .parameterized ds :: ys) =
      s.expressionType? (.branch .parameterized cs :: xs) := by
  have hBase := h.first (f := .base) (by simp)
  simp only [expressionType?]
  generalize (Node.branch .parameterized cs).field? .base = x at hBase ⊢
  generalize (Node.branch .parameterized ds).field? .base = y at hBase ⊢
  cases hBase with
  | none => rfl
  | some hType =>
    obtain ⟨t, rfl, rfl⟩ | ⟨k, cs, ds, rfl, rfl⟩ := hType.shape
    · rfl
    · cases k <;> rfl

/-- Runs of twins have the same type in surroundings that match. -/
theorem Matches.expressionType (h : s.Matches s') (hRun : List.Forall₂ (Twin r) xs ys) :
    s'.expressionType? ys = s.expressionType? xs := by
  induction hLength : xs.length using Nat.strongRecOn generalizing xs ys with
  | ind length ih =>
    cases hRun with
    | nil => rfl
    | @cons e e' before before' hHead hBefore =>
      have hName := hHead.simpleNameOf
      obtain ⟨t, rfl, rfl⟩ | ⟨k, cs, ds, rfl, rfl⟩ := hHead.shape
      · exact h.expressionType_word hBefore t
      · cases k with
        | name type =>
          cases type with
          | some type => rfl
          | none =>
            cases hSimple : (Node.branch (.name none) cs).simpleNameOf? with
            | none => simp [expressionType?, hName, hSimple]
            | some x =>
              rw [hSimple] at hName
              cases hPoint : pointed before with
              | false =>
                rw [expressionType_variable hSimple hPoint,
                  expressionType_variable hName ((pointed_twin hBefore).trans hPoint), h.variableType]
              | true =>
                obtain ⟨dot, e, rest, rfl, hDot⟩ := exists_of_pointed hPoint
                cases hBefore with
                | @cons _ dot' _ _ hTwin hBefore =>
                  cases hBefore with
                  | @cons _ f _ rest' hFirst hRest =>
                    have hInner := ih (e :: rest).length (by rw [← hLength]; simp)
                      (.cons hFirst hRest) rfl
                    rw [expressionType_member hSimple hDot,
                      expressionType_member hName ((hTwin.isToken ".").trans hDot), hInner,
                      h.scope.field]
        | parameterized => exact expressionType_parameterized hHead
        | _ => rfl

theorem Matches.receiverType (h : s.Matches s') (hRun : List.Forall₂ (Twin r) xs ys) :
    s'.receiverType? ys = s.receiverType? xs := by
  cases hRun with
  | nil => exact congrArg List.head? h.classes
  | cons hDot hBefore =>
    rw [receiverType?, receiverType?, hDot.isToken, h.expressionType hBefore, h.classes]

theorem arityFrom_twin (hRun : List.Forall₂ (Twin r) xs ys) (depth commas : Nat) (found : Bool) :
    arityFrom depth commas found ys = arityFrom depth commas found xs := by
  induction hRun generalizing depth commas found with
  | nil => rfl
  | cons hHead _ ih => simp only [arityFrom, hHead.isToken, ih]

/-- Between twins, a call gets the same method. -/
theorem Matches.methodAt (h : s.Matches s') (hBefore : List.Forall₂ (Twin r) xs ys) (call : Node)
    {after after' : List Node} (hAfter : List.Forall₂ (Twin r) after after') :
    s'.methodAt? ys call after' = s.methodAt? xs call after := by
  have hArity : arity after' = arity after := arityFrom_twin hAfter 0 0 false
  simp only [methodAt?, calledMethod?, h.receiverType hBefore, h.scope.method, hArity,
    h.scope.known]

end Surroundings

-- ---------------------------------------------------------------------------
-- Nodes
-- ---------------------------------------------------------------------------

namespace Attribution

variable {s s' : Surroundings}

theorem divide_matches {s s' : Scope} (h : s.Matches s') (cs : List (Field × Node))
    (parts : List String) (count : Nat) : divide? s' cs parts count = divide? s cs parts count := by
  induction count with
  | zero => rfl
  | succ count ih => simp only [divide?, h.resolveParts, ih]

theorem ofName_matches {s s' : Scope} (h : s.Matches s') (b : Bool) (cs : List (Field × Node)) :
    ofName s' b cs = ofName s b cs := by
  simp only [ofName, h.resolveParts, divide_matches h]

/-- Surroundings that match still do so within a node. -/
theorem matches_enter (h : s.Matches s') (n : Node) : (enter s n).Matches (enter s' n) := by
  unfold enter
  split
  · exact ⟨h.scope, by simp only [h.scope.package, h.classes], h.locals⟩
  · refine ⟨h.scope, h.classes, fun x => ?_⟩
    simp only [List.findSome?_cons, methodVariables, h.scope.resolve, h.locals]
  · exact h

/-- An element between twins becomes the same. -/
theorem attach_matches (h : s.Matches s') {xs ys : List Node} (hBefore : List.Forall₂ (Twin r) xs ys)
    (e : Node) {after after' : List Node} (hAfter : List.Forall₂ (Twin r) after after') :
    attach s' ys e after' = attach s xs e after := by
  unfold attach
  split
  · rw [h.methodAt hBefore _ hAfter]
  · rfl

/-- Behind twins, calls get the same methods. -/
theorem ofCalls_matches (h : s.Matches s') {xs ys : List Node} (hBefore : List.Forall₂ (Twin r) xs ys)
    (cs : List (Field × Node)) : (ofCalls s' ys cs).value = (ofCalls s xs cs).value := by
  induction cs generalizing xs ys with
  | nil => rfl
  | cons c cs ih =>
    obtain ⟨f, e⟩ := c
    rw [ofCalls_cons, ofCalls_cons, attach_matches h hBefore e (Twin.forall₂_same _),
      ih (.cons (.same _) hBefore)]

/-- Surroundings that match make the same of every node. -/
theorem ofNode_matches (h : s.Matches s') (b : Bool) (n : Node) :
    (ofNode s' b n).value = (ofNode s b n).value := by
  induction n using Node.induct generalizing s s' b with
  | token t => rfl
  | branch k cs ih =>
    have hInner {s s' : Surroundings} (h : s.Matches s') (b : Bool) :
        (ofChildren s' b cs).value = (ofChildren s b cs).value := by
      rw [ofChildren_value, ofChildren_value]
      exact List.flatMap_congr fun c hc => by rw [ih c hc h]
    by_cases hName : k = .name none
    · subst hName
      rw [ofNode, ofNode, ofName_matches h.scope]
    by_cases hForm : k.form ∉ [Form.packageDeclaration, .importDeclaration, .statement]
    · rw [ofNode_branch hForm hName, ofNode_branch hForm hName, hInner (matches_enter h _)]
    · cases k with
      | packageDeclaration => rw [ofNode, ofNode]
      | importDeclaration => rw [ofNode, ofNode]
      | statement =>
        rw [ofNode, ofNode]
        simp only [hInner h, ofCalls_matches (r := default) h .nil]
      | name _ | parameterized | call _ | block | extendsClause | method | classBody
      | typeDeclaration | unit => simp [NodeKind.form] at hForm

theorem ofChildren_matches (h : s.Matches s') (b : Bool) (cs : List (Field × Node)) :
    (ofChildren s' b cs).value = (ofChildren s b cs).value := by
  rw [ofChildren_value, ofChildren_value]
  exact List.flatMap_congr fun c _ => by rw [ofNode_matches h]

/-- The elements beside a twin become the same, whichever of both stands there. -/
theorem exists_of_ofCalls_twin (h : s.Matches s') {xs ys : List Node}
    (hBefore : List.Forall₂ (Twin r) xs ys) {n m : Node} (hTwin : Twin r n m)
    (hCall : ∀ cs, n ≠ .branch (.call none) cs) (f : Field) (front back : List (Field × Node)) :
    ∃ front' back', List.Forall₂ Called front front' ∧ List.Forall₂ Called back back' ∧
      (ofCalls s xs (front ++ (f, n) :: back)).value = front' ++ (f, n) :: back' ∧
      (ofCalls s' ys (front ++ (f, m) :: back)).value = front' ++ (f, m) :: back' := by
  have hCall' : ∀ cs, m ≠ .branch (.call none) cs := by
    obtain ⟨t, rfl, rfl⟩ | ⟨k, ns, ms, rfl, rfl⟩ := hTwin.shape
    · exact hCall
    · exact fun cs hEq => hCall ns (by rw [(Node.branch.inj hEq).1])
  induction front generalizing xs ys with
  | nil =>
    refine ⟨[], _, .nil, called_ofCalls s (n :: xs) back, ?_, ?_⟩
    · rw [List.nil_append, ofCalls_cons, attach_self hCall]
      rfl
    · rw [List.nil_append, ofCalls_cons, attach_self hCall', ofCalls_matches h (.cons hTwin hBefore)]
      rfl
  | cons c front ih =>
    obtain ⟨g, e⟩ := c
    let rest (n : Node) := (front ++ (f, n) :: back).map Prod.snd
    have hRest : List.Forall₂ (Twin r) (rest n) (rest m) := by
      simp only [rest, List.map_append, List.map_cons]
      exact List.rel_append (Twin.forall₂_same _) (.cons hTwin (Twin.forall₂_same _))
    have hFirst : attach s' ys e (rest m) = attach s xs e (rest n) := attach_matches h hBefore e hRest
    obtain ⟨front', back', hFront, hBack, hEq, hEq'⟩ :=
      ih (.cons (.same (attach s xs e (rest n))) hBefore)
    refine ⟨(g, attach s xs e (rest n)) :: front', back', .cons (called_attach xs g e _) hFront, hBack,
      ?_, ?_⟩
    · rw [List.cons_append, ofCalls_cons, hEq]
      rfl
    · rw [List.cons_append, ofCalls_cons, show attach s' ys e _ = _ from hFirst, hEq']
      rfl

-- ---------------------------------------------------------------------------
-- One layer
-- ---------------------------------------------------------------------------

/-- Nodes of these forms are not attributed child by child. -/
def closedForms : List Form := [.name, .call, .packageDeclaration, .importDeclaration]

/-- A layer after attribution, with the same tokens on both sides of its hole. -/
structure Layer.Attributed (l l' : Layer) : Prop where
  kind : l'.kind = l.kind
  field : l'.field = l.field
  front : Node.tokensOf l'.front = Node.tokensOf l.front
  back : Node.tokensOf l'.back = Node.tokensOf l.back

/-- One layer around twins: where one node comes of each of them, and these are twins again, the layer is
attributed in the same way around both. -/
theorem ofNode_layer_twin {l : Layer} {n' m' : Node} {b : Bool}
    (hFine : (l.fill n).WellFormed) (hOpen : l.kind.form ∉ closedForms)
    (hCall : ∀ cs, n' ≠ .branch (.call none) cs) (hMatches : s.Matches s')
    (hEnter : (enter s (l.fill n)).Matches (enter s' (l.fill m))) (hTwin : Twin r n' m')
    (h : (ofNode (enter s (l.fill n)) (l.kind.form == .statement) n).value = [n'])
    (h' : (ofNode (enter s' (l.fill m)) (l.kind.form == .statement) m).value = [m']) :
    ∃ l', Layer.Attributed l l' ∧ (ofNode s b (l.fill n)).value = [l'.fill n'] ∧
      (ofNode s' b (l.fill m)).value = [l'.fill m'] := by
  obtain ⟨k, front, f, back⟩ := l
  have hTokens (cs : List (Field × Node)) (hcs : cs ⊆ front ++ (f, n) :: back) (s : Surroundings)
      (b : Bool) : Node.tokensOf (ofChildren s b cs).value = Node.tokensOf cs :=
    tokens_ofChildren fun c hc => annotates_ofNode (hFine.child (hcs hc))
  have hFront := hTokens front (List.subset_append_left _ _)
  have hBack := hTokens back fun c hc => List.mem_append_right _ (List.mem_cons_of_mem _ hc)
  -- the children become those in front, one in the place, and those behind
  have hSplit {s : Surroundings} {b : Bool} {n n' : Node} (h : (ofNode s b n).value = [n']) :
      (ofChildren s b (front ++ (f, n) :: back)).value =
        (ofChildren s b front).value ++ (f, n') :: (ofChildren s b back).value := by
    rw [ofChildren_value, ofChildren_value, ofChildren_value, List.flatMap_append, List.flatMap_cons, h]
    rfl
  by_cases hRun : k.form = .statement
  · obtain rfl : k = .statement := by cases k <;> first | rfl | cases hRun
    have hHere : (ofNode s true n).value = [n'] := h
    have hHere' : (ofNode s' true m).value = [m'] := h'
    obtain ⟨front', back', hCalled, hCalled', hEq, hEq'⟩ := exists_of_ofCalls_twin hMatches .nil hTwin
      hCall f (ofChildren s true front).value (ofChildren s true back).value
    refine ⟨⟨.statement, front', f, back'⟩, ⟨rfl, rfl, ?_, ?_⟩, ?_, ?_⟩
    · exact (Called.tokens hCalled).trans (hFront s true)
    · exact (Called.tokens hCalled').trans (hBack s true)
    · rw [Layer.fill, Layer.children, ofNode, hSplit hHere, hEq]
      rfl
    · rw [Layer.fill, Layer.children, ofNode, hSplit hHere', ofChildren_matches hMatches,
        ofChildren_matches hMatches, hEq']
      rfl
  · have hOther := childwise_of_not_mem (by decide) hOpen hRun
    have hName : k ≠ .name none := by
      rintro rfl
      exact hOpen (by simp [closedForms, NodeKind.form])
    rw [show (k.form == .statement) = false from beq_eq_false_iff_ne.mpr hRun] at h h'
    simp only [Layer.fill, Layer.children] at hEnter h h'
    let inside := enter s (.branch k (front ++ (f, n) :: back))
    refine ⟨⟨k, (ofChildren inside false front).value, f, (ofChildren inside false back).value⟩,
      ⟨rfl, rfl, hFront inside false, hBack inside false⟩, ?_, ?_⟩
    · rw [Layer.fill, Layer.children, ofNode_branch hOther hName, hSplit h]
      rfl
    · rw [Layer.fill, Layer.children, ofNode_branch hOther hName, hSplit h', ofChildren_matches hEnter,
        ofChildren_matches hEnter]
      rfl

end Attribution

end SourceMigration
