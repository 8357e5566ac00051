import SourceMigration.Proofs.Parsing.Lists
import SourceMigration.Proofs.Parsing.Parsed
import SourceMigration.Proofs.Typing.Attached
import SourceMigration.Proofs.Typing.Called

/-!
# SourceMigration — arguments counted

The number of arguments of a call is told by the commas after its name. In the run that a list of arguments
has become, a comma outside of all other parentheses stands between two arguments, or else it is one of an
argument itself, such as a comma between type arguments that are no part of a type. So what is counted are the
arguments and the commas of the second sort, and attribution of the elements before the calls does not change
that.

## Results

* `arity_parted`       — what is counted in the run of a list of arguments.
* `arity_of_arguments` — the arguments of every call with a method are counted.
-/

namespace SourceMigration

open TreeBuilder (Becomes IsList exists_of_isList)

namespace Surroundings

variable {runs : List (List Node)} {run : List Node} {opening closing : Node}

-- ---------------------------------------------------------------------------
-- In a list of arguments
-- ---------------------------------------------------------------------------

theorem arityFrom_closing (hClose : closing.isToken ")" = true) (commas : Nat) (more : List Node) :
    arityFrom 1 commas true (closing :: more) = commas + 1 := by
  simp [arityFrom, hClose, Node.isToken_unique hClose (b := "(") (by decide)]

theorem arityFrom_comma {comma : Node} (hComma : comma.isToken "," = true) (commas : Nat) (more : List Node) :
    arityFrom 1 commas true (comma :: more) = arityFrom 1 (commas + 1) true more := by
  simp [arityFrom, hComma, Node.isToken_unique hComma (b := "(") (by decide),
    Node.isToken_unique hComma (b := ")") (by decide)]

/-- Arguments and the commas in them that stand outside of all parentheses are counted. -/
theorem arityFrom_parted (h : Parted runs run) (hEach : ∀ a ∈ runs, IsArgument a)
    (hClose : closing.isToken ")" = true) (commas : Nat) (more : List Node) :
    arityFrom 1 commas true (run ++ closing :: more) =
      commas + runs.length + ownCommas runs := by
  induction h generalizing commas with
  | last a =>
    rw [arityFrom_open (hEach a List.mem_cons_self).level, arityFrom_closing hClose,
      ownCommas_cons, List.length_singleton, Nat.add_right_comm]
    rfl
  | cons a hComma _ ih =>
    rw [List.append_assoc, List.cons_append, arityFrom_open (hEach a List.mem_cons_self).level,
      arityFrom_comma hComma, ih fun b hb => hEach b (List.mem_cons_of_mem _ hb), ownCommas_cons,
      List.length_cons]
    omega

/-- An argument ends no list, and separates none. -/
theorem not_sign_of_isArgument {e : Node} {a : List Node} (h : IsArgument (e :: a)) :
    e.isToken ")" = false ∧ e.isToken "," = false := by
  refine ⟨?_, h.front e rfl⟩
  rcases openAfter_cons h.level with ⟨hOpen, -⟩ | ⟨-, -, d, hd, -⟩ | ⟨-, hClose, -⟩
  · exact Node.isToken_unique hOpen (by decide)
  · cases hd
  · exact hClose

theorem exists_first (h : Parted runs run) : ∃ a rest more, runs = a :: rest ∧ run = a ++ more := by
  cases h with
  | last _ => exact ⟨run, [], [], rfl, (List.append_nil run).symm⟩
  | cons a hComma h => exact ⟨a, _, _, rfl, rfl⟩

/-- In the run of a list of arguments, the arguments are counted, and with them their own commas. -/
theorem arity_parted (h : runs = [] ∧ run = [] ∨ Parted runs run) (hEach : ∀ a ∈ runs, IsArgument a)
    (hOpen : opening.isToken "(" = true) (hClose : closing.isToken ")" = true) (more : List Node) :
    arity (opening :: (run ++ [closing]) ++ more) = runs.length + ownCommas runs := by
  rcases h with ⟨rfl, rfl⟩ | h
  · simp [arity, arityFrom, hOpen, hClose, Node.isToken_unique hClose (b := "(") (by decide)]
  · -- after its first element the list is known to hold an argument
    have hFound : arityFrom 1 0 false (run ++ closing :: more) =
      arityFrom 1 0 true (run ++ closing :: more) := by
      obtain ⟨a, rest, behind, rfl, rfl⟩ := exists_first h
      have ha := hEach a List.mem_cons_self
      obtain ⟨e, a, rfl⟩ := List.exists_cons_of_ne_nil ha.ne_nil
      obtain ⟨hNoClose, hNoComma⟩ := not_sign_of_isArgument ha
      simp [arityFrom, hNoClose, hNoComma]
    have hCount := arityFrom_parted h hEach hClose 0 more
    simp [arity, arityFrom, hOpen, hFound, hCount]

-- ---------------------------------------------------------------------------
-- Elements that are no signs of a list
-- ---------------------------------------------------------------------------

/-- An element that is none of the signs of a list is passed over. -/
theorem arityFrom_plain {e : Node} (h : ∀ text ∈ Concrete.listSigns, e.isToken text = false)
    (depth commas : Nat) (found : Bool) (more : List Node) :
    arityFrom depth commas found (e :: more) = arityFrom depth commas (found || depth != 0) more := by
  simp [arityFrom, h "(" (by decide), h ")" (by decide), h "," (by decide)]

theorem arity_calledMethod {s : Surroundings} {name : String} {owner : TypeName} {after : List Node}
    {m : MethodType} (h : s.calledMethod? name owner after = some m) : m.arity = arity after := by
  unfold calledMethod? at h
  split at h
  · cases h
    rfl
  · split at h
    · cases h
    · cases h
      rfl

end Surroundings

namespace Attribution

variable {s : Surroundings}

-- ---------------------------------------------------------------------------
-- Attributed elements
-- ---------------------------------------------------------------------------

/-- What becomes of the elements after a call leaves the number of its arguments as it is. -/
theorem arityFrom_resolved {scope : Scope} {cs ds : List (Field × Node)} (h : ResolvedRun scope cs ds)
    (depth commas : Nat) (found : Bool) :
    Surroundings.arityFrom depth commas found (ds.map Prod.snd) =
      Surroundings.arityFrom depth commas found (cs.map Prod.snd) := by
  induction cs generalizing ds depth commas found with
  | nil =>
    cases h
    rfl
  | cons c cs ih =>
    cases h with
    | @cons f n m _ ds hNode _ hs =>
      have hSigns (text : String) : m.isToken text = n.isToken text := by cases hNode <;> rfl
      simp only [List.map_cons, Surroundings.arityFrom, hSigns, ih hs]
    | @divided f ts front back type dot _ ds hDivides hs =>
      -- neither the two names nor the point between them is a sign of a list
      have hPoint : ∀ text ∈ Concrete.listSigns, (Node.token dot).isToken text = false := by
        simp [Concrete.listSigns, Node.isToken, Token.spells, hDivides.splits.point.2]
      simp only [List.map_cons]
      rw [Surroundings.arityFrom_plain (fun _ _ => rfl), Surroundings.arityFrom_plain hPoint,
        Surroundings.arityFrom_plain (fun _ _ => rfl), Surroundings.arityFrom_plain (fun _ _ => rfl),
        ih hs]
      simp only [Bool.or_assoc, Bool.or_self]

/-- A call among attributed elements was a call among the elements. -/
theorem exists_of_resolved {scope : Scope} {cs front back : List (Field × Node)} {f : Field}
    {m : Option MethodType} {ds : List (Field × Node)}
    (h : ResolvedRun scope cs (front ++ (f, .branch (.call m) ds) :: back)) :
    ∃ before after, cs = before ++ (f, .branch (.call none) ds) :: after ∧
      ResolvedRun scope before front ∧ ResolvedRun scope after back := by
  induction cs generalizing front with
  | nil =>
    generalize hAll : front ++ (f, Node.branch (.call m) ds) :: back = all at h
    cases h
    simp at hAll
  | cons c cs ih =>
    generalize hAll : front ++ (f, Node.branch (.call m) ds) :: back = all at h
    cases h with
    | cons hNode hWhole hs =>
      cases front with
      | nil =>
        obtain ⟨hCall, rfl⟩ := List.cons.inj hAll
        obtain ⟨rfl, rfl⟩ := Prod.mk.inj hCall
        cases hNode with
        | call _ _ => exact ⟨[], cs, rfl, .nil, hs⟩
        | branch hk _ => simp [NodeKind.form] at hk
      | cons d front =>
        obtain ⟨rfl, rfl⟩ := List.cons.inj hAll
        obtain ⟨before, after, rfl, hBefore, hAfter⟩ := ih hs
        exact ⟨_ :: before, after, rfl, .cons hNode hWhole hBefore, hAfter⟩
    | divided hDivides hs =>
      -- the call is none of the three elements that the name became
      rcases front with _ | ⟨d₁, _ | ⟨d₂, _ | ⟨d₃, front⟩⟩⟩ <;>
        simp only [List.nil_append, List.cons_append, List.cons.injEq, Prod.mk.injEq, Node.nameOf,
          Node.branch.injEq, reduceCtorEq, false_and, and_false] at hAll
      obtain ⟨rfl, rfl, rfl, rfl⟩ := hAll
      obtain ⟨before, after, rfl, hBefore, hAfter⟩ := ih hs
      exact ⟨_ :: before, after, rfl, .divided hDivides hBefore, hAfter⟩

-- ---------------------------------------------------------------------------
-- Calls with methods
-- ---------------------------------------------------------------------------

/-- Every call with a method is an element of a statement. After its name stands what a list of arguments of
the text has become, and the arguments of the method are as many as the arguments in that list and their own
commas outside of all parentheses. So they are counted right exactly if no argument has such a comma. -/
theorem arity_of_arguments [TreeSitter] [LawfulTreeSitter] {classpath : Classpath}
    {text : String} {tree : Node}
    (h : Parsing.parse text = .ok tree) {type : Node}
    (hType : type ∈ (ofUnit classpath tree).value.field .types) :
    CalledInStatements type ∧
      ∀ st ∈ type.walk, st.form = .statement →
        ∃ s cs, Stands { scope := Scope.ofUnit tree classpath } tree s (.branch .statement cs) ∧
          st = statementOf s cs ∧
          ∀ front f m ds back, st.children = front ++ (f, .branch (.call (some m)) ds) :: back →
            ∃ before after n list runs,
              cs = before ++ (f, .branch (.call none) ds) :: after ∧
              ResolvedRun s.scope before front ∧ ResolvedRun s.scope after back ∧
              n ∈ (TreeSitter.root text).inside ∧ n.type = "argument_list" ∧
              Becomes text.toList n list ∧ list <+: after.map Prod.snd ∧
              List.Forall₂ (Becomes text.toList) n.arguments runs ∧
              m.arity = n.arguments.length + ownCommas runs ∧
              (m.arity = n.arguments.length ↔ ∀ a ∈ runs, looseCommas 0 a = 0) := by
  have hFresh := Parsing.fresh_of_parse h
  refine ⟨calledInStatements_ofUnit classpath hFresh.wellFormed hFresh.bare hFresh.isUnit type hType, ?_⟩
  intro st hSt hForm
  obtain ⟨s, cs, hStands, rfl⟩ :=
    statements_ofUnit classpath hFresh.wellFormed hFresh.isUnit type hType st hSt hForm
  refine ⟨s, cs, hStands, rfl, ?_⟩
  intro front f m ds back hChildren
  obtain ⟨⟨hFine, hBare, hChained⟩, hArgued⟩ := hStands.inherit
    (P := fun n => (n.WellFormed ∧ n.Bare ∧ n.Chained) ∧ n.Argued (IsList text.toList (TreeSitter.root text)))
    ⟨⟨hFresh.wellFormed, hFresh.bare, hFresh.chained⟩, Parsing.argued_of_parse h⟩
    fun k ds h c hc => ⟨⟨h.1.1.child hc, h.1.2.1.child hc, h.1.2.2.child hc⟩, h.2.child hc⟩
  have hChildren : (ofCalls s [] (ofChildren s true cs).value).value =
      front ++ (f, .branch (.call (some m)) ds) :: back := hChildren
  have hRun : ResolvedRun s.scope cs (front ++ (f, .branch (.call (some m)) ds) :: back) := by
    rw [← hChildren]
    exact resolvedRun_called (resolvedRun_ofChildren fun c hc =>
      resolved_ofNode (hFine.child hc) (hBare.child hc) (hChained.child hc) s) (called_ofCalls s [] _)
  obtain ⟨before, after, rfl, hBefore, hAfter⟩ := exists_of_resolved hRun
  obtain ⟨list, hList, more, hMore⟩ : ∃ list, IsList text.toList (TreeSitter.root text) list ∧
      list <+: after.map Prod.snd := by
    cases hArgued with
    | branch hCalls _ => exact hCalls _ none ds _ (by rw [List.map_append, List.map_cons])
  obtain ⟨n, hn, hType, hMade, opening, closing, run, runs, rfl, hOpen, hClose, hParted, hRuns, hEach⟩ :=
    exists_of_isList (LawfulTreeSitter.regular ((Parsing.parse_eq_ok_iff.mp h).1)) hList
  have hArity : m.arity = n.arguments.length + ownCommas runs := by
    obtain ⟨owner, -, hMethod⟩ := Option.bind_eq_some_iff.mp (method_of_ofCalls
      (not_attached_ofChildren fun c hc => ⟨hFine.child hc, hBare.child hc⟩) hChildren).symm
    rw [Surroundings.arity_calledMethod hMethod, Surroundings.arity, arityFrom_resolved hAfter, ← hMore,
      hRuns.length_eq]
    exact Surroundings.arity_parted hParted hEach hOpen hClose more
  refine ⟨before, after, n, _, runs, rfl, hBefore, hAfter, hn, hType, hMade, ⟨more, hMore⟩, hRuns, hArity, ?_⟩
  rw [hArity, Nat.add_eq_left, ownCommas_eq_zero_iff]

open Draft in
/-- A class with a call whose first argument is a call with two arguments. -/
def nestedCall : Sample := .ofDraft (node "program" [
  classOf "A" none (braced "class_body" [
    methodOf wholeType "f" [parameterOf (wholeType "") "a"] (braced "block" [
      returning (callOf "f" [callOf "f" [word "a", word "a" " "], word "a" " "] " ")])])]) "\n"

/-- Whether the second element of a statement is a call of a method with so many arguments. -/
def callsWith (count : Nat) (st : Node) : Bool :=
  match st.children with
  | _ :: (_, .branch (.call (some m)) _) :: _ => st.form = .statement && m.arity = count
  | _ => false

theorem exists_of_callsWith {count : Nat} {st : Node} (h : callsWith count st = true) :
    ∃ c f m ds back, st.form = .statement ∧ st.children = [c] ++ (f, .branch (.call (some m)) ds) :: back ∧
      m.arity = count := by
  unfold callsWith at h
  split at h
  · rename_i c f m ds back hChildren
    simp only [Bool.and_eq_true, decide_eq_true_eq] at h
    exact ⟨c, f, m, ds, back, h.1, hChildren, h.2⟩
  · cases h

open Sample in
set_option maxRecDepth 100000 in
theorem arity_of_arguments_nestedCall : letI := library [nestedCall]
    ∃ tree, Parsing.parse nestedCall.text = .ok tree ∧
      ∃ type ∈ (ofUnit ⟨defaultStubs⟩ tree).value.field .types, ∃ st ∈ type.walk, callsWith 2 st = true ∧
        ∃ n ∈ (TreeSitter.root nestedCall.text).inside, n.type = "argument_list" ∧
          ∃ runs, List.Forall₂ (Becomes nestedCall.text.toList) n.arguments runs ∧
            n.arguments.length + ownCommas runs = 2 := by
  let _ := library [nestedCall]
  have hSound : nestedCall.isSound = true := by decide +kernel
  have _ := lawful_library (List.forall_mem_singleton.mpr hSound)
  have hSome : (nestedCall.unit?.map fun tree =>
      ((ofUnit ⟨defaultStubs⟩ tree).value.field .types).any fun type =>
        type.walk.any (callsWith 2)) = some true := by decide +kernel
  obtain ⟨tree, hTree, hSome⟩ := Option.map_eq_some_iff.mp hSome
  have h : Parsing.parse nestedCall.text = .ok tree := (parse_iff hSound).mpr hTree
  obtain ⟨type, hType, hAny⟩ := List.any_eq_true.mp hSome
  obtain ⟨st, hSt, hCalls⟩ := List.any_eq_true.mp hAny
  obtain ⟨c, f, m, ds, back, hForm, hChildren, hCount⟩ := exists_of_callsWith hCalls
  obtain ⟨s, cs, -, -, hCounted⟩ := (arity_of_arguments h hType).2 st hSt hForm
  obtain ⟨-, -, n, -, runs, -, -, -, hn, hList, -, -, hRuns, hArity, -⟩ := hCounted _ f m ds back hChildren
  exact ⟨tree, h, type, hType, st, hSt, hCalls, n, hn, hList, runs, hRuns, hArity.symm.trans hCount⟩

end Attribution

end SourceMigration
