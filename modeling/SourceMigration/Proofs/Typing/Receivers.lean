import SourceMigration.Proofs.Parsing.Parsed
import SourceMigration.Proofs.Typing.Statements

/-!
# SourceMigration — calls on variables

A call on a simple name gets a method only if the type of a variable of that name was recorded: by a
declaration in a method around the call whose type means something, or as a field of a class around
it or of a type above such a class. What was not recorded hides nothing, though: a parameter whose
type is unknown leaves the field of the same name in sight.

## Results

* `exists_of_attached`     — a call that got a method has a receiver of known type.
* `exists_of_variableType` — a variable of known type is declared with a type that means something.
* `called_on_variable`     — a call on a variable got its method by a recorded declaration.
-/

namespace SourceMigration

namespace Variables

/-- A run declares a variable with a type that the scope finds: a type that stands after no point,
the name, and then a sign that ends a declarator or nothing. -/
def Declares (s : Scope) (run : List Node) (name : String) (t : TypeName) : Prop :=
  ∃ front type head next back, run = front ++ type :: next :: back ∧
    front.getLast?.any (·.isToken ".") = false ∧ back.head?.all endsDeclarator = true ∧
    type.typeHead? = some head ∧ next.simpleNameOf? = some name ∧ s.resolve head = some t

/-- A variable that is recorded for a run is declared in it. -/
theorem declares_of_mem {s : Scope} {run : List Node} {name : String} {t : TypeName}
    (h : (name, t) ∈ declared s.resolve run) : Declares s run name t := by
  have hFrom : ∀ previous, (name, t) ∈ declaredFrom s.resolve previous run →
      ∃ front type head next back, run = front ++ type :: next :: back ∧
        (previous.toList ++ front).getLast?.any (·.isToken ".") = false ∧
        back.head?.all endsDeclarator = true ∧
        type.typeHead? = some head ∧ next.simpleNameOf? = some name ∧ s.resolve head = some t := by
    clear h
    induction run with
    | nil =>
      intro previous h
      cases h
    | cons type run ih =>
      intro previous h
      cases run with
      | nil => cases h
      | cons next rest =>
        rw [declaredFrom] at h
        rcases List.mem_append.mp h with h | h
        · have hFound := Option.mem_toList.mp h
          simp only [Option.bind_eq_bind, Option.bind_eq_some_iff] at hFound
          obtain ⟨head, hHead, hFound⟩ := hFound
          split at hFound
          · cases hFound
          · rename_i hPoint
            obtain ⟨x, hName, hFound⟩ := Option.bind_eq_some_iff.mp hFound
            split at hFound
            · cases hFound
            · rename_i hEnd
              obtain ⟨u, hType, hPair⟩ := Option.bind_eq_some_iff.mp hFound
              obtain ⟨rfl, rfl⟩ := Prod.mk.inj (Option.some.inj hPair)
              refine ⟨[], type, head, next, rest, rfl, ?_, ?_, hHead, hName, hType⟩
              · cases previous with
                | none => rfl
                | some e => simpa using hPoint
              · cases rest with
                | nil => rfl
                | cons e rest => simpa using hEnd
        · obtain ⟨front, u, head, v, back, hRun, hPoint, hDeclared⟩ := ih (some type) h
          refine ⟨type :: front, u, head, v, back, by rw [hRun]; rfl, ?_, hDeclared⟩
          rw [Option.toList_some, List.singleton_append] at hPoint
          rwa [List.getLast?_append_of_ne_nil _ (by simp)]
  simpa [Declares] using hFrom none h

/-- What is found for a variable was recorded. -/
theorem mem_of_typeOf {entries : List (String × TypeName)} {name : String} {t : TypeName}
    (h : typeOf? entries name = some t) : (name, t) ∈ entries := by
  obtain ⟨front, back, hEntries, -⟩ := List.lookup_eq_some_iff.mp h
  exact List.mem_reverse.mp (hEntries ▸ by simp)

end Variables

namespace Attribution

variable {s s' : Surroundings} {root n : Node}

-- ---------------------------------------------------------------------------
-- Variables in sight
-- ---------------------------------------------------------------------------

/-- The runs of a method in which variables are declared: its parameters and the statements in its
body. -/
def runsOf (method : Node) : List (List Node) :=
  method.field .parameters ::
    ((method.field .body).flatMap Node.walk).filterMap fun m =>
      if m.form = .statement then some (m.field .elements) else none

theorem declares_of_mem_methodVariables {scope : Scope} {method : Node} {name : String}
    {t : TypeName} (h : (name, t) ∈ methodVariables scope method) :
    ∃ run ∈ runsOf method, Variables.Declares scope run name t := by
  rcases List.mem_append.mp h with h | h
  · exact ⟨_, List.mem_cons_self, Variables.declares_of_mem h⟩
  · obtain ⟨body, hBody, h⟩ := List.mem_flatMap.mp h
    obtain ⟨m, hm, h⟩ := List.mem_flatMap.mp h
    split at h
    · rename_i cs
      refine ⟨_, List.mem_cons_of_mem _ (List.mem_filterMap.mpr ⟨.branch .statement cs, ?_, rfl⟩),
        Variables.declares_of_mem h⟩
      exact List.mem_flatMap.mpr ⟨body, hBody, hm⟩
    · cases h

/-- A node is met on its own walk. -/
theorem mem_walk_self (n : Node) : n ∈ n.walk := by
  cases n <;> simp [Node.walk]

/-- What is below a node on a walk is on the walk. -/
theorem mem_walk_child {k : NodeKind} {cs : List (Field × Node)} {c : Field × Node} (hc : c ∈ cs)
    {m : Node} (h : .branch k cs ∈ m.walk) : c.2 ∈ m.walk := by
  induction m using Node.induct with
  | token t => simp [Node.walk] at h
  | branch l ds ih =>
    rw [walk_branch] at h ⊢
    rcases List.mem_cons.mp h with h | h
    · obtain ⟨-, rfl⟩ := Node.branch.inj h
      exact List.mem_cons_of_mem _ (List.mem_flatMap.mpr ⟨c, hc, mem_walk_self c.2⟩)
    · obtain ⟨d, hd, h⟩ := List.mem_flatMap.mp h
      exact List.mem_cons_of_mem _ (List.mem_flatMap.mpr ⟨d, hd, ih d hd h⟩)

theorem Stands.mem_walk (h : Stands s root s' n) : n ∈ root.walk := by
  induction h with
  | root => exact mem_walk_self root
  | child _ hc ih => exact mem_walk_child hc ih

/-- The variables in sight of a node are those of the methods around it. -/
theorem Stands.exists_method (h : Stands s root s' n) {vars : List (String × TypeName)}
    (hVars : vars ∈ s'.locals) :
    vars ∈ s.locals ∨ ∃ method ∈ root.walk, method.form = .method ∧ n ∈ method.walk ∧
      vars = methodVariables s.scope method := by
  induction h with
  | root => exact Or.inl hVars
  | @child s' k cs c h hc ih =>
    have hOuter (hVars : vars ∈ s'.locals) : vars ∈ s.locals ∨ ∃ method ∈ root.walk,
        method.form = .method ∧ c.2 ∈ method.walk ∧ vars = methodVariables s.scope method := by
      rcases ih hVars with hVars | ⟨method, hMethod, hForm, hMem, rfl⟩
      · exact Or.inl hVars
      · exact Or.inr ⟨method, hMethod, hForm, mem_walk_child hc hMem, rfl⟩
    unfold enter at hVars
    split at hVars
    · exact hOuter hVars
    · rename_i cs hEq
      rcases List.mem_cons.mp hVars with rfl | hVars
      · refine Or.inr ⟨_, h.mem_walk, ?_, mem_walk_child hc (mem_walk_self _), by rw [h.scope_eq]⟩
        rw [hEq]
        rfl
      · exact hOuter hVars
    · exact hOuter hVars

-- ---------------------------------------------------------------------------
-- Receivers
-- ---------------------------------------------------------------------------

/-- A call that got a method has a receiver of known type, which has the method. -/
theorem exists_of_attached {before : List Node} {cs front back : List (Field × Node)} {f : Field}
    {m : MethodType} {ds : List (Field × Node)}
    (hBare : ∀ c ∈ cs, ∀ m ds, c.2 ≠ .branch (.call (some m)) ds)
    (h : (ofCalls s before cs).value = front ++ (f, .branch (.call (some m)) ds) :: back) :
    ∃ owner name after, s.receiverType? ((front.map Prod.snd).reverse ++ before) = some owner ∧
      s.calledMethod? name owner after = some m := by
  induction cs generalizing before front with
  | nil => simp [ofCalls] at h
  | cons c cs ih =>
    obtain ⟨g, e⟩ := c
    have hRest := fun d hd => hBare d (List.mem_cons_of_mem _ hd)
    -- the element itself, or whatever becomes of it, stands before the calls that follow
    have hLater {e' : Node}
        (hSame : ∀ m' ds', e' = .branch (.call (some m')) ds' → ∃ owner name after,
          s.receiverType? before = some owner ∧ s.calledMethod? name owner after = some m')
        (h : (g, e') :: (ofCalls s (e' :: before) cs).value =
          front ++ (f, .branch (.call (some m)) ds) :: back) :
        ∃ owner name after, s.receiverType? ((front.map Prod.snd).reverse ++ before) = some owner ∧
          s.calledMethod? name owner after = some m := by
      cases front with
      | nil =>
        obtain ⟨hHead, -⟩ := List.cons.inj h
        exact hSame m ds (Prod.mk.inj hHead).2
      | cons d front =>
        obtain ⟨rfl, hTail⟩ := List.cons.inj h
        simpa using ih hRest hTail
    rw [ofCalls.eq_def] at h
    simp only at h
    split at h
    · split at h
      · exact hLater (by simp) h
      · rename_i owner hOwner
        split at h
        · rename_i m' hMethod
          refine hLater (fun m'' ds' hEq => ?_) h
          obtain ⟨hKind, -⟩ := Node.branch.inj hEq
          obtain rfl := Option.some.inj (NodeKind.call.inj hKind)
          exact ⟨owner, _, _, hOwner, hMethod⟩
        · exact hLater (by simp) h
    · exact hLater (fun m' ds' hEq => absurd hEq (hBare _ List.mem_cons_self m' ds')) h

/-- A simple name that denotes nothing, before a point, is a variable as a receiver. -/
theorem receiverType_variable {before : List Node} {vs : List (Field × Node)} {dot : Node} {x : String}
    (hDot : dot.isToken "." = true) (hName : (Node.branch (.name none) vs).simpleNameOf? = some x)
    (hBefore : before.head?.any (·.isToken ".") = false) :
    s.receiverType? (dot :: .branch (.name none) vs :: before) = s.variableType? x := by
  rw [Surroundings.receiverType?, if_pos hDot, Surroundings.expressionType?.eq_def]
  simp only [hName]
  split
  · rename_i hNone
    cases hNone
  · rename_i d e rest hSome
    obtain rfl := Option.some.inj hSome
    rw [if_neg]
    simpa using hBefore
  · rename_i hSome _
    obtain rfl := Option.some.inj hSome
    rfl

/-- What the elements of a statement become has no method on its calls yet. -/
theorem not_attached_ofChildren {b : Bool} {cs : List (Field × Node)}
    (h : ∀ c ∈ cs, c.2.WellFormed ∧ c.2.Bare) :
    ∀ c ∈ (ofChildren s b cs).value, ∀ m ds, c.2 ≠ .branch (.call (some m)) ds := by
  rw [ofChildren_value]
  intro d hd m ds hCall
  obtain ⟨c, hc, hd⟩ := List.mem_flatMap.mp hd
  obtain ⟨e, he, rfl⟩ := List.mem_map.mp hd
  obtain ⟨hFine, hBare⟩ := h c hc
  obtain rfl : e = .branch (.call (some m)) ds := hCall
  have hForm : c.2.form = .call := by
    rcases (annotates_ofNode hFine).forms _ he with h | ⟨-, h⟩
    · exact h.symm
    · cases h
  obtain ⟨k, ks, hNode⟩ : ∃ k ks, c.2 = .branch k ks := by
    cases hEq : c.2 with
    | token t => simp [hEq, Node.form] at hForm
    | branch k ks => exact ⟨k, ks, rfl⟩
  rw [hNode] at hForm hBare he
  cases k with
  | call m' =>
    rw [ofNode_branch (by simp [NodeKind.form]) (by simp)] at he
    cases hBare with
    | branch hKind _ =>
      obtain ⟨hKinds, -⟩ := Node.branch.inj (List.mem_singleton.mp he)
      rw [← NodeKind.call.inj hKinds] at hKind
      cases hKind
  | _ => cases hForm

/-- A variable of known type was recorded: in a method around the node that asks, or as a field of a
class around it or of a type above that class. -/
theorem exists_of_variableType (h : Stands { scope } root s n) {x : String} {owner : TypeName}
    (hType : s.variableType? x = some owner) :
    (∃ method ∈ root.walk, method.form = .method ∧ n ∈ method.walk ∧
        ∃ run ∈ runsOf method, Variables.Declares scope run x owner) ∨
      ∃ c ∈ s.classes, scope.fieldType? c x = some owner := by
  unfold Surroundings.variableType? at hType
  cases hLocal : s.locals.findSome? (Variables.typeOf? · x) with
  | some t =>
    rw [hLocal] at hType
    obtain rfl : t = owner := Option.some.inj hType
    obtain ⟨vars, hVars, hFound⟩ := List.exists_of_findSome?_eq_some hLocal
    rcases h.exists_method hVars with hNone | ⟨method, hMethod, hForm, hMem, rfl⟩
    · cases hNone
    · exact Or.inl ⟨method, hMethod, hForm, hMem,
        declares_of_mem_methodVariables (Variables.mem_of_typeOf hFound)⟩
  | none =>
    rw [hLocal] at hType
    obtain ⟨c, hc, hFound⟩ := List.exists_of_findSome?_eq_some hType
    rw [h.scope_eq] at hFound
    exact Or.inr ⟨c, hc, hFound⟩

/-- A call on a variable has a method only if a variable of that name was recorded, and it is a method
of the type that was recorded: of the innermost method around the call that declares the variable
with a type that means something, or else of a field in sight. -/
theorem called_on_variable {classpath : Classpath} {tree : Node} (h : tree.Fresh) {type st : Node}
    (hType : type ∈ (ofUnit classpath tree).value.field .types) (hSt : st ∈ type.walk)
    (hForm : st.form = .statement) {front back vs ds : List (Field × Node)} {f g e : Field}
    {dot : Node} {m : MethodType} {x : String}
    (hChildren : st.children = front ++ (f, .branch (.name none) vs) :: (g, dot) ::
      (e, .branch (.call (some m)) ds) :: back)
    (hName : (Node.branch (.name none) vs).simpleNameOf? = some x) (hDot : dot.isToken "." = true)
    (hPoint : front.getLast?.any (·.2.isToken ".") = false) :
    ∃ s cs owner, Stands { scope := Scope.ofUnit tree classpath } tree s (.branch .statement cs) ∧
      st = statementOf s cs ∧ s.variableType? x = some owner ∧
      (∃ name after, s.calledMethod? name owner after = some m) ∧
      ((∃ method ∈ tree.walk, method.form = .method ∧ .branch .statement cs ∈ method.walk ∧
          ∃ run ∈ runsOf method, Variables.Declares (Scope.ofUnit tree classpath) run x owner) ∨
        ∃ c ∈ s.classes, (Scope.ofUnit tree classpath).fieldType? c x = some owner) := by
  have hFine := h.wellFormed
  have hUnit := h.isUnit
  obtain ⟨s, cs, hStands, rfl⟩ := statements_ofUnit classpath hFine hUnit type hType st hSt hForm
  obtain ⟨hFine, hBare⟩ := hStands.inherit (P := fun n => n.WellFormed ∧ n.Bare)
    ⟨hFine, h.bare⟩ fun k ds h c hc => ⟨h.1.child hc, h.2.child hc⟩
  have hFront : (ofCalls s [] (ofChildren s true cs).value).value =
      (front ++ [(f, .branch (.name none) vs), (g, dot)]) ++ (e, .branch (.call (some m)) ds) :: back := by
    simpa [statementOf, Node.children] using hChildren
  obtain ⟨owner, name, after, hReceiver, hCalled⟩ := exists_of_attached
    (not_attached_ofChildren fun c hc => ⟨hFine.child hc, hBare.child hc⟩) hFront
  simp only [List.map_append, List.map_cons, List.map_nil, List.reverse_append, List.reverse_cons,
    List.reverse_nil, List.nil_append, List.cons_append, List.append_nil] at hReceiver
  rw [receiverType_variable hDot hName (by simpa [Option.any_map] using hPoint)] at hReceiver
  exact ⟨s, cs, owner, hStands, rfl, hReceiver, ⟨name, after, hCalled⟩,
    exists_of_variableType hStands hReceiver⟩

open Draft in
/-- A class with a call on a parameter. -/
def parameterCall : Sample := .ofDraft (node "program" [
  classOf "A" none (braced "class_body" [
    methodOf (voidType " ") "f" [parameterOf (typeWord "A") "a"] (braced "block" [
      asStatement (callOn (word "a" " ") "f" [word "a"])])])]) "\n"

/-- Whether a statement begins with a call of a known method on the variable `x`. -/
def beginsWithCallOn (x : String) (st : Node) : Bool :=
  match st.children with
  | (_, .branch (.name none) vs) :: (_, dot) :: (_, .branch (.call (some _)) _) :: _ =>
    st.form = .statement && (Node.branch (.name none) vs).simpleNameOf? = some x && dot.isToken "."
  | _ => false

theorem exists_of_beginsWithCallOn {x : String} {st : Node} (h : beginsWithCallOn x st = true) :
    ∃ f vs g dot e m ds back, st.form = .statement ∧
      st.children = (f, .branch (.name none) vs) :: (g, dot) ::
        (e, .branch (.call (some m)) ds) :: back ∧
      (Node.branch (.name none) vs).simpleNameOf? = some x ∧ dot.isToken "." = true := by
  unfold beginsWithCallOn at h
  split at h
  · rename_i f vs g dot e m ds back hChildren
    simp only [Bool.and_eq_true, decide_eq_true_eq] at h
    exact ⟨f, vs, g, dot, e, m, ds, back, h.1.1, hChildren, h.1.2, h.2⟩
  · cases h

set_option maxRecDepth 100000 in
theorem called_on_variable_parameterCall : ∃ tree, parameterCall.unit? = some tree ∧ tree.Fresh ∧
    ∃ type ∈ (ofUnit ⟨defaultStubs⟩ tree).value.field .types, ∃ st ∈ type.walk,
      beginsWithCallOn "a" st = true ∧
      ∃ s cs owner, Stands { scope := Scope.ofUnit tree ⟨defaultStubs⟩ } tree s
          (.branch .statement cs) ∧ s.variableType? "a" = some owner := by
  have hSome : (parameterCall.unit?.map fun tree =>
      ((ofUnit ⟨defaultStubs⟩ tree).value.field .types).any fun type =>
        type.walk.any (beginsWithCallOn "a")) = some true := by decide +kernel
  obtain ⟨tree, hTree, hSome⟩ := Option.map_eq_some_iff.mp hSome
  have hFresh := Parsing.fresh_of_sample (by decide +kernel) hTree
  obtain ⟨type, hType, hAny⟩ := List.any_eq_true.mp hSome
  obtain ⟨st, hSt, hCall⟩ := List.any_eq_true.mp hAny
  obtain ⟨f, vs, g, dot, e, m, ds, back, hForm, hChildren, hName, hDot⟩ :=
    exists_of_beginsWithCallOn hCall
  have hFront : st.children = [] ++ (f, .branch (.name none) vs) :: (g, dot) ::
      (e, .branch (.call (some m)) ds) :: back := hChildren
  obtain ⟨s, cs, owner, hStands, -, hOwner, -⟩ :=
    called_on_variable hFresh hType hSt hForm hFront hName hDot rfl
  exact ⟨tree, hTree, hFresh, type, hType, st, hSt, hCall, s, cs, owner, hStands, hOwner⟩

end Attribution

end SourceMigration
