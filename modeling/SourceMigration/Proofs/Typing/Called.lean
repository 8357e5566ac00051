import SourceMigration.Proofs.Typing.Balanced
import SourceMigration.Proofs.Typing.Placed

/-!
# SourceMigration — calls by their receivers

`StaticType` says what the type of an expression is, rule by rule and read forwards: of a name, of
`this` and `super`, of a variable, of a member of another expression, and of a call with its list of
arguments. The type told by going back over the elements before a call is that type, so a call after a
point gets its method by the type of the expression before the point, and gets none where the
expression has no type.

## Results

* `expressionType_eq_some_iff` — the type told backwards is the static type.
* `called_on_receiver`         — which method a call of the attributed unit has.
-/

namespace SourceMigration

-- ---------------------------------------------------------------------------
-- Static types
-- ---------------------------------------------------------------------------

/-- The static type of the expression that ends a run. -/
inductive StaticType (s : Surroundings) : List Node → TypeName → Prop where
  /-- A name that denotes a type. -/
  | name (run : List Node) (t : TypeName) (cs : List (Field × Node)) :
      StaticType s (run ++ [.branch (.name (some t)) cs]) t
  | parameterized (run : List Node) {cs ds : List (Field × Node)} {t : TypeName}
      (hBase : (Node.branch .parameterized cs).field? .base = some (.branch (.name (some t)) ds)) :
      StaticType s (run ++ [.branch .parameterized cs]) t
  /-- The innermost class. -/
  | this (run : List Node) {word : Token} {t : TypeName} (hWord : word.spells "this" = true)
      (hClass : s.classes.head? = some t) : StaticType s (run ++ [.token word]) t
  /-- The supertype that the unit gives to the innermost class. -/
  | super (run : List Node) {word : Token} {c t : TypeName} {info : ClassInfo}
      (hWord : word.spells "super" = true) (hClass : s.classes.head? = some c)
      (hInfo : s.scope.class? c = some info) (hExtends : info.extends? = some t) :
      StaticType s (run ++ [.token word]) t
  /-- A simple name after no point is a variable. -/
  | simple (run : List Node) {cs : List (Field × Node)} {x : String} {t : TypeName}
      (hName : (Node.branch (.name none) cs).simpleNameOf? = some x)
      (hPoint : run.length ≤ 1 ∨ run.getLast?.any (·.isToken ".") = false)
      (hType : s.variableType? x = some t) : StaticType s (run ++ [.branch (.name none) cs]) t
  /-- A simple name after a point is a member of the expression before the point. -/
  | member {run : List Node} {owner t : TypeName} {dot : Node} {cs : List (Field × Node)} {x : String}
      (hRun : StaticType s run owner) (hDot : dot.isToken "." = true)
      (hName : (Node.branch (.name none) cs).simpleNameOf? = some x)
      (hField : s.scope.fieldType? owner x = some t) :
      StaticType s (run ++ [dot, .branch (.name none) cs]) t
  /-- A call has the type that its method returns. -/
  | call (run : List Node) {m : MethodType} {ds : List (Field × Node)} {opening : Node}
      {arguments : List Node} {closing : Token} {t : TypeName}
      (hOpen : opening.isToken "(" = true) (hArguments : Balanced arguments)
      (hClose : closing.spells ")" = true) (hReturns : m.returns = some t) :
      StaticType s (run ++ .branch (.call (some m)) ds :: opening :: (arguments ++ [.token closing])) t

namespace StaticType

variable {s : Surroundings} {run : List Node} {t : TypeName}

theorem ne_nil (h : StaticType s run t) : run ≠ [] := by
  cases h <;> simp

end StaticType

namespace Surroundings

variable {s : Surroundings} {t : TypeName}

theorem spells_unique {word : Token} {a b : String} (h : word.spells a = true) (hNe : a ≠ b) :
    word.spells b = false :=
  Node.isToken_unique (e := .token word) h hNe

/-- The type told by going back from the end of a run is the static type of what ends it. -/
theorem staticType_of_expressionType {before : List Node} (h : s.expressionType? before = some t) :
    StaticType s before.reverse t := by
  induction hLength : before.length using Nat.strongRecOn generalizing before t with
  | ind length ih =>
    cases before with
    | nil => cases h
    | cons e before =>
      rw [List.reverse_cons]
      cases e with
      | token word =>
        rw [expressionType?] at h
        split at h
        · rename_i hThis
          exact .this _ hThis h
        · split at h
          · rename_i hSuper
            obtain ⟨info, hInfo, hExtends⟩ := Option.bind_eq_some_iff.mp h
            obtain ⟨c, hClass, hInfo⟩ := Option.bind_eq_some_iff.mp hInfo
            exact .super _ hSuper hClass hInfo hExtends
          · split at h
            · rename_i hClose
              split at h
              · rename_i m ds rest hBefore
                obtain ⟨opening, inner, hOpen, hInner, rfl⟩ := beforeOpening_eq_some_iff.mp hBefore
                simpa using StaticType.call rest.reverse hOpen hInner hClose h
              · cases h
            · cases h
      | branch k cs =>
        cases k with
        | name type =>
          cases type with
          | some type =>
            obtain rfl : type = t := by simpa [expressionType?] using h
            exact .name _ _ _
          | none =>
            cases hName : (Node.branch (.name none) cs).simpleNameOf? with
            | none => simp [expressionType?, hName] at h
            | some x =>
              cases hPoint : pointed before with
              | true =>
                obtain ⟨dot, e, rest, rfl, hDot⟩ := exists_of_pointed hPoint
                rw [expressionType_member hName hDot] at h
                obtain ⟨owner, hOwner, hField⟩ := Option.bind_eq_some_iff.mp h
                have hRun := ih (e :: rest).length (by rw [← hLength]; simp) hOwner rfl
                simpa using StaticType.member hRun hDot hName hField
              | false =>
                rw [expressionType_variable hName hPoint] at h
                exact .simple _ hName (by simpa using pointed_eq_false_iff.mp hPoint) h
        | parameterized =>
          rw [expressionType?] at h
          split at h
          · rename_i type ds hBase
            subst h
            exact .parameterized _ hBase
          · cases h
        | _ => simp [expressionType?] at h

/-- The static type of what ends a run is told by going back from the end. -/
theorem expressionType_of_staticType {run : List Node} (h : StaticType s run t) :
    s.expressionType? run.reverse = some t := by
  induction h with
  | name run t cs => simp [expressionType?]
  | parameterized run hBase => simp [expressionType?, hBase]
  | this run hWord hClass => simp [expressionType?, hWord, hClass]
  | super run hWord hClass hInfo hExtends =>
    have hThis := spells_unique hWord (b := "this") (by decide)
    simp [expressionType?, hWord, hThis, hClass, hInfo, hExtends]
  | @simple run cs x t hName hPoint hType =>
    have hEnd : pointed run.reverse = false := pointed_eq_false_iff.mpr (by simpa using hPoint)
    rw [List.reverse_append, List.reverse_singleton, List.singleton_append,
      expressionType_variable hName hEnd, hType]
  | @member run owner t dot cs x hRun hDot hName hField ih =>
    have hEq : (run ++ [dot, .branch (.name none) cs]).reverse =
        .branch (.name none) cs :: dot :: run.reverse := by simp
    rw [hEq]
    obtain ⟨e, rest, hBefore⟩ :=
      List.exists_cons_of_ne_nil (mt List.reverse_eq_nil_iff.mp hRun.ne_nil)
    rw [hBefore, expressionType_member hName hDot, ← hBefore, ih, Option.bind_some, hField]
  | @call run m ds opening arguments closing t hOpen hArguments hClose hReturns =>
    have hThis := spells_unique hClose (b := "this") (by decide)
    have hSuper := spells_unique hClose (b := "super") (by decide)
    have hEq : (run ++ .branch (.call (some m)) ds :: opening ::
          (arguments ++ [.token closing])).reverse =
        .token closing :: (arguments.reverse ++ opening :: .branch (.call (some m)) ds ::
          run.reverse) := by simp
    have hBefore := beforeOpening_eq_some_iff.mpr ⟨opening, arguments, hOpen, hArguments,
      rfl (a := arguments.reverse ++ opening :: .branch (.call (some m)) ds :: run.reverse)⟩
    rw [hEq, expressionType?, hBefore]
    simp [hThis, hSuper, hClose, hReturns]

/-- The type told backwards from the end of a run is the static type of what ends the run. -/
theorem expressionType_eq_some_iff {run : List Node} :
    s.expressionType? run.reverse = some t ↔ StaticType s run t :=
  ⟨fun h => List.reverse_reverse run ▸ staticType_of_expressionType h, expressionType_of_staticType⟩

-- ---------------------------------------------------------------------------
-- The elements after a call
-- ---------------------------------------------------------------------------

/-- Methods attached to calls are no signs. -/
theorem arityFrom_called {cs cs' : List (Field × Node)}
    (h : List.Forall₂ Attribution.Called cs cs') (depth commas : Nat) (found : Bool) :
    arityFrom depth commas found (cs'.map Prod.snd) = arityFrom depth commas found (cs.map Prod.snd) := by
  induction h generalizing depth commas found with
  | nil => rfl
  | @cons c c' cs cs' hc _ ih =>
    have hSigns (text : String) : c'.2.isToken text = c.2.isToken text := by cases hc <;> rfl
    simp only [List.map_cons, arityFrom, hSigns, ih]

theorem calledMethod_called {cs cs' : List (Field × Node)}
    (h : List.Forall₂ Attribution.Called cs cs') (name : String) (owner : TypeName) :
    s.calledMethod? name owner (cs'.map Prod.snd) = s.calledMethod? name owner (cs.map Prod.snd) := by
  simp only [calledMethod?, arity, arityFrom_called h]

end Surroundings

namespace Attribution

variable {s : Surroundings}

-- ---------------------------------------------------------------------------
-- Where calls have methods
-- ---------------------------------------------------------------------------

/-- A call with a method. -/
def HasMethod (n : Node) : Prop := ∃ m ds, n = .branch (.call (some m)) ds

/-- Every call with a method in a tree is an element of a statement in it. -/
def CalledInStatements (n : Node) : Prop :=
  ∀ call ∈ n.walk, HasMethod call → ∃ st ∈ n.walk, st.form = .statement ∧ ∃ f, (f, call) ∈ st.children

theorem calledInStatements_of_forms (forms : List Form)
    (hClosed : ∀ k : NodeKind, k.form ∈ forms → ∀ s ∈ k.slots, ∀ form ∈ s.forms, form ∈ forms)
    (hCall : Form.call ∉ forms) {n : Node} (h : n.WellFormed) (hForm : n.form ∈ forms) :
    CalledInStatements n := by
  rintro call hMem ⟨m, ds, rfl⟩
  exact absurd (h.form_walk hClosed hForm _ hMem) hCall

/-- What children have, their parent has, unless it is a call with a method itself. -/
theorem calledInStatements_branch {k : NodeKind} {cs : List (Field × Node)}
    (hKind : ∀ m, k ≠ .call (some m)) (h : ∀ c ∈ cs, CalledInStatements c.2) :
    CalledInStatements (.branch k cs) := by
  intro call hMem hCalled
  rw [walk_branch] at hMem ⊢
  rcases List.mem_cons.mp hMem with rfl | hMem
  · obtain ⟨m, ds, hEq⟩ := hCalled
    exact absurd (Node.branch.inj hEq).1 (hKind m)
  · obtain ⟨c, hc, hMem⟩ := List.mem_flatMap.mp hMem
    obtain ⟨st, hSt, hForm, hChild⟩ := h c hc call hMem hCalled
    exact ⟨st, List.mem_cons_of_mem _ (List.mem_flatMap.mpr ⟨c, hc, hSt⟩), hForm, hChild⟩

/-- Attaching methods to the elements of a statement leaves them in the statement. -/
theorem calledInStatements_called {cs cs' : List (Field × Node)} (hCalled : List.Forall₂ Called cs cs')
    (hFine : ∀ c ∈ cs, c.2.WellFormed) (h : ∀ c ∈ cs, CalledInStatements c.2) {c' : Field × Node}
    (hc' : c' ∈ cs') {call : Node} (hMem : call ∈ c'.2.walk) (hMethod : HasMethod call) :
    (∃ st ∈ c'.2.walk, st.form = .statement ∧ ∃ f, (f, call) ∈ st.children) ∨ c'.2 = call := by
  induction hCalled with
  | nil => cases hc'
  | @cons d d' cs cs' hd _ ih =>
    rcases List.mem_cons.mp hc' with rfl | hc'
    · cases hd with
      | same => exact Or.inl (h _ List.mem_cons_self call hMem hMethod)
      | attached f m ds =>
        rw [walk_branch] at hMem
        rcases List.mem_cons.mp hMem with rfl | hMem
        · exact Or.inr rfl
        · -- below the name of a call stand only tokens
          obtain ⟨e, he, hMem⟩ := List.mem_flatMap.mp hMem
          have hLeaf : (Node.branch (.call none) ds).WellFormed := hFine _ List.mem_cons_self
          obtain ⟨t, hToken⟩ := hLeaf.token_of_leaf rfl he
          rw [hToken, Node.walk, List.mem_singleton] at hMem
          obtain ⟨m', ds', rfl⟩ := hMethod
          cases hMem
    · exact ih (fun e he => hFine e (List.mem_cons_of_mem _ he))
        (fun e he => h e (List.mem_cons_of_mem _ he)) hc'

/-- In an attributed node, every call with a method is an element of a statement. -/
theorem calledInStatements_ofNode {b : Bool} {n : Node} (h : n.WellFormed) (hBare : n.Bare)
    (hForm : n.form ∉ Node.headerForms) :
    ∀ m ∈ (ofNode s b n).value, CalledInStatements m := by
  induction h generalizing s b with
  | token t =>
    rw [ofNode, List.forall_mem_singleton]
    exact calledInStatements_of_forms [.token] (fun k hk => by cases k <;> cases hk <;> contradiction)
      (by decide) (.token t) (by simp [Node.form])
  | @branch k cs hFills hChildren ih =>
    have hFine : (Node.branch k cs).WellFormed := .branch hFills hChildren
    have hInner (s : Surroundings) (b : Bool) :
        ∀ c ∈ (ofChildren s b cs).value, CalledInStatements c.2 := by
      rw [ofChildren_value]
      intro d hd
      obtain ⟨c, hc, hd⟩ := List.mem_flatMap.mp hd
      obtain ⟨m, hm, rfl⟩ := List.mem_map.mp hd
      exact ih c hc (hBare.child hc) (hFine.form_child hForm hc) m hm
    by_cases hName : k = .name none
    · intro m hm
      have hAnnotates := annotates_ofNode (s := s) (b := b) hFine
      refine calledInStatements_of_forms [.token, .name] ?_ (by decide)
        (hAnnotates.wellFormed m hm) ?_
      · intro k hk
        cases k <;> simp_all [NodeKind.form, NodeKind.slots]
      · subst hName
        rcases hAnnotates.forms m hm with hSame | ⟨-, hToken⟩
        · exact List.mem_cons_of_mem _ (hSame ▸ List.mem_cons_self)
        · exact hToken ▸ List.mem_cons_self
    by_cases hStatement : k = .statement
    · subst hStatement
      rw [ofNode, List.forall_mem_singleton]
      intro call hMem hMethod
      rw [walk_branch] at hMem ⊢
      rcases List.mem_cons.mp hMem with rfl | hMem
      · obtain ⟨m, ds, hEq⟩ := hMethod
        cases hEq
      · obtain ⟨c, hc, hMem⟩ := List.mem_flatMap.mp hMem
        rcases calledInStatements_called (called_ofCalls s [] _)
            (wellFormed_ofChildren fun c hc => annotates_ofNode (hFine.child hc)) (hInner s true) hc
            hMem hMethod with ⟨st, hSt, hRest⟩ | rfl
        · exact ⟨st, List.mem_cons_of_mem _ (List.mem_flatMap.mpr ⟨c, hc, hSt⟩), hRest⟩
        · exact ⟨_, List.mem_cons_self, rfl, c.1, hc⟩
    · have hRun : k.form ≠ .statement := fun h =>
        hStatement (by cases k <;> first | rfl | cases h)
      rw [ofNode_branch (childwise_of_not_mem (by decide) hForm hRun) hName,
        List.forall_mem_singleton]
      refine calledInStatements_branch ?_ (hInner _ false)
      rintro m rfl
      cases hBare with
      | branch hKind _ => cases hKind

/-- In the types of an attributed unit, every call with a method is an element of a statement. -/
theorem calledInStatements_ofUnit (classpath : Classpath) {unit : Node} (h : unit.WellFormed)
    (hBare : unit.Bare) (hUnit : unit.form = .unit) :
    ∀ type ∈ (ofUnit classpath unit).value.field .types, CalledInStatements type := by
  obtain ⟨cs, s, rfl, -, hValue⟩ := exists_of_ofUnit classpath h hUnit
  rw [hValue, Node.field_branch, filed_ofChildren]
  intro type hType
  obtain ⟨n, hn, hType⟩ := List.mem_flatMap.mp hType
  have hSlot : ⟨.types, .many, memberForms⟩ ∈ NodeKind.unit.slots := by simp [NodeKind.slots]
  obtain ⟨hForms, hFine⟩ := h.filed_many hSlot n hn
  exact calledInStatements_ofNode hFine (hBare.child (mem_of_mem_filed hn))
    (not_header_of_member hForms) type hType

-- ---------------------------------------------------------------------------
-- Calls and their receivers
-- ---------------------------------------------------------------------------

/-- A call among the elements of a statement has the method that its receiver tells. -/
theorem method_of_ofCalls {cs front back : List (Field × Node)} {f : Field} {m : Option MethodType}
    {ds : List (Field × Node)} (hBare : ∀ c ∈ cs, ∀ m ds, c.2 ≠ .branch (.call (some m)) ds)
    (h : (ofCalls s [] cs).value = front ++ (f, .branch (.call m) ds) :: back) :
    m = (s.receiverType? (front.map Prod.snd).reverse).bind fun owner =>
      s.calledMethod? (Node.branch (.call m) ds).calleeName owner (back.map Prod.snd) := by
  obtain ⟨cs₁, e, cs₂, rfl, -, hBack, hEq⟩ := exists_of_ofCalls h
  have hName : (Node.branch (.call m) ds).calleeName = (Node.branch (.call none) ds).calleeName := rfl
  have hNone : e = .branch (.call none) ds := by
    unfold attach at hEq
    split at hEq
    · rw [(Node.branch.inj hEq).2]
    · rename_i hOther
      cases m with
      | none => exact hEq.symm
      | some m => exact absurd hEq.symm (hBare (f, e) (by simp) m ds)
  subst hNone
  have hKind := NodeKind.call.inj (Node.branch.inj hEq).1
  rw [List.append_nil] at hKind
  refine hKind.trans ?_
  rw [hName]
  simp only [Surroundings.methodAt?, Surroundings.calledMethod_called hBack]

/-- Every call with a method is an element of a statement, and a call in a statement has the method
that its receiver tells: after a point, the method of its name that is found from the static type of
the expression before the point, and none where that expression has no type; after anything else, the
one found from the innermost class. -/
theorem called_on_receiver {classpath : Classpath} {tree : Node} (h : tree.Fresh) {type : Node}
    (hType : type ∈ (ofUnit classpath tree).value.field .types) :
    CalledInStatements type ∧
      ∀ st ∈ type.walk, st.form = .statement →
        ∃ s cs, Stands { scope := Scope.ofUnit tree classpath } tree s (.branch .statement cs) ∧
          st = statementOf s cs ∧
          ∀ front f m ds back, st.children = front ++ (f, .branch (.call m) ds) :: back →
            (∀ receiver g dot, front = receiver ++ [(g, dot)] → dot.isToken "." = true →
              ∀ method, m = some method ↔ ∃ owner, StaticType s (receiver.map Prod.snd) owner ∧
                s.calledMethod? (Node.branch (.call m) ds).calleeName owner (back.map Prod.snd) =
                  some method) ∧
            (front.getLast?.any (·.2.isToken ".") = false →
              ∀ method, m = some method ↔ ∃ c, s.classes.head? = some c ∧
                s.calledMethod? (Node.branch (.call m) ds).calleeName c (back.map Prod.snd) =
                  some method) := by
  have hFine := h.wellFormed
  have hUnit := h.isUnit
  refine ⟨calledInStatements_ofUnit classpath hFine h.bare hUnit type hType, ?_⟩
  intro st hSt hForm
  obtain ⟨s, cs, hStands, rfl⟩ := statements_ofUnit classpath hFine hUnit type hType st hSt hForm
  refine ⟨s, cs, hStands, rfl, ?_⟩
  intro front f m ds back hChildren
  obtain ⟨hFine, hBare⟩ := hStands.inherit (P := fun n => n.WellFormed ∧ n.Bare)
    ⟨hFine, h.bare⟩ fun k ds h c hc => ⟨h.1.child hc, h.2.child hc⟩
  have hMethod := method_of_ofCalls
    (not_attached_ofChildren fun c hc => ⟨hFine.child hc, hBare.child hc⟩) hChildren
  constructor
  · rintro receiver g dot rfl hDot method
    rw [List.map_append, List.map_singleton, List.reverse_append, List.reverse_singleton,
      List.singleton_append, Surroundings.receiverType?, if_pos hDot] at hMethod
    refine (Eq.congr_left hMethod).trans (Option.bind_eq_some_iff.trans ?_)
    simp only [Surroundings.expressionType_eq_some_iff]
  · intro hPoint method
    have hReceiver : s.receiverType? (front.map Prod.snd).reverse = s.classes.head? := by
      rcases List.eq_nil_or_concat front with rfl | ⟨receiver, last, rfl⟩
      · rfl
      · have hLast : last.2.isToken "." = false := by simpa using hPoint
        rw [List.concat_eq_append, List.map_append, List.map_singleton, List.reverse_append,
          List.reverse_singleton, List.singleton_append, Surroundings.receiverType?, hLast]
        rfl
    rw [hReceiver] at hMethod
    exact (Eq.congr_left hMethod).trans Option.bind_eq_some_iff

open Draft in
/-- A class with a call on what another call returns. -/
def chained : Sample := .ofDraft (node "program" [
  classOf "A" none (braced "class_body" [
    methodOf (typeWord "A" " ") "f" [] (braced "block" [
      returning (callOn (callOf "f" [] " ") "f" [])])])]) "\n"

/-- Whether a statement has a call of a known method after so many elements and a point. -/
def callsAfter (count : Nat) (st : Node) : Bool :=
  match st.children.drop count with
  | (_, dot) :: (_, .branch (.call (some _)) _) :: _ => st.form = .statement && dot.isToken "."
  | _ => false

theorem exists_of_callsAfter {count : Nat} {st : Node} (h : callsAfter count st = true) :
    ∃ receiver g dot f m ds back, receiver = st.children.take count ∧ st.form = .statement ∧
      dot.isToken "." = true ∧
      st.children = receiver ++ [(g, dot)] ++ (f, .branch (.call (some m)) ds) :: back := by
  unfold callsAfter at h
  split at h
  · rename_i g dot f m ds back hDrop
    simp only [Bool.and_eq_true, decide_eq_true_eq] at h
    refine ⟨_, g, dot, f, m, ds, back, rfl, h.1, h.2, ?_⟩
    rw [List.append_assoc, List.singleton_append, ← hDrop, List.take_append_drop]
  · cases h

set_option maxRecDepth 100000 in
theorem called_on_receiver_chained : ∃ tree, chained.unit? = some tree ∧ tree.Fresh ∧
    ∃ type ∈ (ofUnit ⟨defaultStubs⟩ tree).value.field .types, ∃ st ∈ type.walk,
      callsAfter 4 st = true ∧
      ∃ s owner, StaticType s ((st.children.take 4).map Prod.snd) owner := by
  have hSome : (chained.unit?.map fun tree =>
      ((ofUnit ⟨defaultStubs⟩ tree).value.field .types).any fun type =>
        type.walk.any (callsAfter 4)) = some true := by decide +kernel
  obtain ⟨tree, hTree, hSome⟩ := Option.map_eq_some_iff.mp hSome
  have hFresh := Parsing.fresh_of_sample (by decide +kernel) hTree
  obtain ⟨type, hType, hAny⟩ := List.any_eq_true.mp hSome
  obtain ⟨st, hSt, hCall⟩ := List.any_eq_true.mp hAny
  obtain ⟨receiver, g, dot, f, m, ds, back, hReceiver, hForm, hDot, hChildren⟩ :=
    exists_of_callsAfter hCall
  obtain ⟨s, cs, -, -, hCalls⟩ := (called_on_receiver hFresh hType).2 st hSt hForm
  obtain ⟨owner, hOwner, -⟩ :=
    ((hCalls _ f (some m) ds back hChildren).1 receiver g dot rfl hDot m).mp rfl
  exact ⟨tree, hTree, hFresh, type, hType, st, hSt, hCall, s, owner, hReceiver ▸ hOwner⟩

end Attribution

end SourceMigration
