import SourceMigration.Proofs.Parsing.Parsed
import SourceMigration.Proofs.Typing.Divided

/-!
# SourceMigration — attribution only attaches

What attribution may do to a tree, said once and independently of how it goes about it. Names,
calls and the names of imports get meanings. Everything else is kept child by child, but for the
elements of a statement: there a name that means nothing as a whole is taken apart at the last of
its points before which it does, and a point and a name are put behind the part that has a meaning.
A field with room for one child only is never among them.

## Results

* `splitsAt_take`, `exists_of_splitsAt` — the points of a name are told by numbers, and back.
* `resolved_ofNode` — attribution attaches.
* `ofUnit_attaches` — the unit of a text after attribution: one node, the same tokens, the same text.
-/

namespace SourceMigration

/-- The spelling of the identifiers among some tokens. -/
def identifiers (ts : List Token) : List String :=
  ts.filterMap fun t => if t.kind = .identifier then some t.text else none

@[simp] theorem nameParts_nameOf (type : Option TypeName) (ts : List Token) :
    (Node.nameOf type ts).nameParts = identifiers ts := by
  simp [Node.nameParts, Node.nameOf, identifiers, filed, List.filterMap_map]

-- ---------------------------------------------------------------------------
-- Names taken apart
-- ---------------------------------------------------------------------------

/-- A dotted name taken apart at one of its points into two names. -/
structure SplitsAt (ts front : List Token) (dot : Token) (back : List Token) : Prop where
  tokens : ts = front ++ dot :: back
  front : Chain front
  point : dot.isPoint
  back : Chain back

section Chains

variable {t dot : Token} {ts links front back : List Token} {k : Nat}

theorem Links.take (h : Links links) (k : Nat) : Links (links.take (2 * k)) := by
  induction h generalizing k with
  | nil => simpa using Links.nil
  | @cons dot t ts hDot ht hs ih =>
    cases k with
    | zero => exact .nil
    | succ k => exact .cons hDot ht (ih k)

theorem Links.drop (h : Links links) (k : Nat) : Links (links.drop (2 * k)) := by
  induction h generalizing k with
  | nil => simpa using Links.nil
  | @cons dot t ts hDot ht hs ih =>
    cases k with
    | zero => exact .cons hDot ht hs
    | succ k => exact ih k

/-- Every second token of some links is an identifier. -/
theorem identifiers_take (h : Links links) (k : Nat) :
    identifiers (links.take (2 * k)) = (identifiers links).take k := by
  induction h generalizing k with
  | nil => simp [identifiers]
  | @cons dot t ts hDot ht hs ih =>
    cases k with
    | zero => rfl
    | succ k =>
      have hFirst (us : List Token) : identifiers (dot :: t :: us) = t.text :: identifiers us := by
        simp [identifiers, hDot.1, ht]
      rw [hFirst, List.take_succ_cons, ← ih k, ← hFirst]
      rfl

/-- A name is taken apart at each of its points. -/
theorem splitsAt_take (ht : t.kind = .identifier) (h : Links links)
    (hDrop : (t :: links).drop (2 * k + 1) = dot :: back) :
    SplitsAt (t :: links) ((t :: links).take (2 * k + 1)) dot back := by
  have hRest : Links (dot :: back) := by
    rw [← hDrop, List.drop_succ_cons]
    exact h.drop k
  cases hRest with
  | cons hDot hNext hs =>
    refine ⟨?_, ⟨t, links.take (2 * k), rfl, ht, h.take k⟩, hDot, ⟨_, _, rfl, hNext, hs⟩⟩
    rw [← hDrop, List.take_append_drop]

/-- The identifiers before a point are the first parts of the name, and fewer than all. -/
theorem exists_of_splitsAt (ht : t.kind = .identifier) (h : Links links)
    (hSplits : SplitsAt (t :: links) front dot back) :
    ∃ k, front.length = 2 * k + 1 ∧ identifiers front = (identifiers (t :: links)).take (k + 1) ∧
      k + 1 < (identifiers (t :: links)).length := by
  obtain ⟨hTokens, ⟨u, ls, rfl, -, hLs⟩, -, -⟩ := hSplits
  rw [List.cons_append, List.cons.injEq] at hTokens
  obtain ⟨rfl, rfl⟩ := hTokens
  have hFirst (us : List Token) : identifiers (t :: us) = t.text :: identifiers us := by
    simp [identifiers, ht]
  have hEven : 2 * (identifiers ls).length = ls.length := length_links hLs
  have hAll : 2 * (identifiers (ls ++ dot :: back)).length = (ls ++ dot :: back).length :=
    length_links h
  have hMore : ls.length < (ls ++ dot :: back).length := by simp
  refine ⟨(identifiers ls).length, by rw [List.length_cons, hEven], ?_, ?_⟩
  · rw [hFirst, hFirst, List.take_succ_cons, ← identifiers_take h, hEven, List.take_left]
  · rw [hFirst, List.length_cons]
    omega

end Chains

-- ---------------------------------------------------------------------------
-- What may become of a tree
-- ---------------------------------------------------------------------------

/-- A name that means nothing is divided after the longest of its parts that means something. -/
structure Divides (s : Scope) (ts : List Token) (type : TypeName) (front : List Token) (dot : Token)
    (back : List Token) : Prop where
  whole : s.resolve (Node.nameOf none ts) = none
  splits : SplitsAt ts front dot back
  denotes : s.resolve (Node.nameOf none front) = some type
  longest : ∀ front' dot' back', SplitsAt ts front' dot' back' → front.length < front'.length →
    s.resolve (Node.nameOf none front') = none

/-- A name that is not to be divided: as a whole it means something, or no part of it does. -/
def StaysWhole (s : Scope) (n : Node) : Prop :=
  ∀ ts, n = Node.nameOf none ts → s.resolve n = none →
    ∀ front dot back, SplitsAt ts front dot back → s.resolve (Node.nameOf none front) = none

mutual

/-- What attribution may make of a node: the node with meanings attached, one node in its place. -/
inductive Resolved (s : Scope) : Node → Node → Prop where
  | token (t : Token) : Resolved s (.token t) (.token t)
  | name (cs : List (Field × Node)) :
      Resolved s (.branch (.name none) cs)
        (.branch (.name (s.resolve (.branch (.name none) cs))) cs)
  | call (m : Option MethodType) (cs : List (Field × Node)) :
      Resolved s (.branch (.call none) cs) (.branch (.call m) cs)
  | package (cs : List (Field × Node)) :
      Resolved s (.branch .packageDeclaration cs) (.branch .packageDeclaration cs)
  | single {cs ns : List (Field × Node)}
      (hName : (Node.branch .importDeclaration cs).field? .name = some (.branch (.name none) ns))
      (h : Import.isSingle (.branch .importDeclaration cs) = true) :
      Resolved s (.branch .importDeclaration cs)
        ((Node.branch .importDeclaration cs).setField .name
          (.branch (.name (some ⟨Import.qualifiedName (.branch .importDeclaration cs)⟩)) ns))
  | collective {cs : List (Field × Node)}
      (h : Import.isSingle (.branch .importDeclaration cs) = false) :
      Resolved s (.branch .importDeclaration cs) (.branch .importDeclaration cs)
  | statement {cs ds : List (Field × Node)} (h : ResolvedRun s cs ds) :
      Resolved s (.branch .statement cs) (.branch .statement ds)
  | branch {k : NodeKind} {cs ds : List (Field × Node)}
      (hk : k.form ∉ [Form.name, .call, .packageDeclaration, .importDeclaration, .statement])
      (h : ResolvedEach s cs ds) : Resolved s (.branch k cs) (.branch k ds)

/-- The same of each child, in its field. -/
inductive ResolvedEach (s : Scope) : List (Field × Node) → List (Field × Node) → Prop where
  | nil : ResolvedEach s [] []
  | cons {f : Field} {n m : Node} {cs ds : List (Field × Node)} (h : Resolved s n m)
      (hs : ResolvedEach s cs ds) : ResolvedEach s ((f, n) :: cs) ((f, m) :: ds)

/-- The same of the elements of a statement, among which names are divided. -/
inductive ResolvedRun (s : Scope) : List (Field × Node) → List (Field × Node) → Prop where
  | nil : ResolvedRun s [] []
  | cons {f : Field} {n m : Node} {cs ds : List (Field × Node)} (h : Resolved s n m)
      (hWhole : StaysWhole s n) (hs : ResolvedRun s cs ds) :
      ResolvedRun s ((f, n) :: cs) ((f, m) :: ds)
  | divided {f : Field} {ts front back : List Token} {type : TypeName} {dot : Token}
      {cs ds : List (Field × Node)} (h : Divides s ts type front dot back)
      (hs : ResolvedRun s cs ds) :
      ResolvedRun s ((f, Node.nameOf none ts) :: cs)
        ((f, Node.nameOf (some type) front) :: (f, .token dot) :: (f, Node.nameOf none back) :: ds)

end

namespace Attribution

variable {s : Scope}

-- ---------------------------------------------------------------------------
-- Names
-- ---------------------------------------------------------------------------

/-- What becomes of a name: it is kept with its meaning, if it has one, or divided in a statement. -/
theorem resolved_ofName {ts : List Token} (h : Chain ts) (b : Bool) :
    (∃ m, (ofName s b (ts.map fun t => (.tokens, .token t))).value = [m] ∧
        Resolved s (Node.nameOf none ts) m ∧ (b = true → StaysWhole s (Node.nameOf none ts))) ∨
      b = true ∧ ∃ type front dot back, Divides s ts type front dot back ∧
        (ofName s b (ts.map fun t => (.tokens, .token t))).value =
          [Node.nameOf (some type) front, .token dot, Node.nameOf none back] := by
  obtain ⟨t, links, rfl, ht, hLinks⟩ := h
  have hParts : ∀ {front dot back}, SplitsAt (t :: links) front dot back →
      ∃ k, front.length = 2 * k + 1 ∧ k + 1 < (identifiers (t :: links)).length ∧
        s.resolve (Node.nameOf none front) =
          s.resolveParts ((identifiers (t :: links)).take (k + 1)) := by
    intro front dot back hSplits
    obtain ⟨k, hLength, hTake, hFewer⟩ := exists_of_splitsAt ht hLinks hSplits
    exact ⟨k, hLength, hFewer, by rw [Scope.resolve, nameParts_nameOf, hTake]⟩
  have hName : Resolved s (Node.nameOf none (t :: links))
      (Node.nameOf (s.resolve (Node.nameOf none (t :: links))) (t :: links)) := .name _
  have hSpelled : (Node.branch (.name none) ((t :: links).map fun t => (.tokens, .token t))).nameParts =
      identifiers (t :: links) := nameParts_nameOf none _
  unfold ofName
  simp only [hSpelled]
  rw [Scope.resolve, nameParts_nameOf] at hName
  cases hWhole : s.resolveParts (identifiers (t :: links)) with
  | some type =>
    rw [hWhole] at hName
    refine Or.inl ⟨_, rfl, hName, fun _ us hUs hNone => ?_⟩
    rw [Scope.resolve, nameParts_nameOf, hWhole] at hNone
    cases hNone
  | none =>
    rw [hWhole] at hName
    by_cases hDotted : b = true ∧ 1 < (identifiers (t :: links)).length
    · obtain ⟨hIn, hDotted⟩ := hDotted
      have hAll : (identifiers (t :: links)).length = (identifiers links).length + 1 := by
        simp [identifiers, ht]
      have hEven : 2 * (identifiers links).length = links.length := length_links hLinks
      have hCount : 2 * ((identifiers (t :: links)).length - 1) ≤ links.length := by omega
      have hOpen : (b && decide ((identifiers (t :: links)).length > 1)) = true := by
        simpa [hIn] using hDotted
      simp only [if_pos hOpen]
      rcases @divide_spec s t links hLinks (identifiers (t :: links)) _ hCount with
        ⟨k, type, dot, back, hk, hDrop, -, hType, hLongest, hDivided⟩ | ⟨hNot, hNone⟩
      · refine Or.inr ⟨hIn, type, (t :: links).take (2 * k + 1), dot, back, ?_, by rw [hDivided]⟩
        have hSplits := splitsAt_take ht hLinks hDrop
        have hLength : ((t :: links).take (2 * k + 1)).length = 2 * k + 1 := by
          rw [List.length_take, List.length_cons]
          omega
        refine ⟨by rw [Scope.resolve, nameParts_nameOf, hWhole], hSplits, ?_, ?_⟩
        · obtain ⟨j, hj, -, hResolve⟩ := hParts hSplits
          obtain rfl : j = k := by omega
          rw [hResolve, hType]
        · intro front' dot' back' hSplits' hLonger
          obtain ⟨j, hj, hFewer, hResolve⟩ := hParts hSplits'
          rw [hResolve]
          exact hLongest (j + 1) (by omega) (by omega)
      · refine Or.inl ⟨_, by rw [hNot]; rfl, hName, fun _ us hUs _ front dot back hSplits => ?_⟩
        obtain rfl : us = t :: links := by
          rw [← Node.tokens_nameOf none us, ← hUs, Node.tokens_nameOf]
        obtain ⟨j, -, hFewer, hResolve⟩ := hParts hSplits
        rw [hResolve]
        exact hNone (j + 1) (by omega) (by omega)
    · have hKept : ¬ (b && decide ((identifiers (t :: links)).length > 1)) = true := by
        simpa using hDotted
      simp only [if_neg hKept]
      refine Or.inl ⟨_, rfl, hName, fun hIn us hUs _ front dot back hSplits => ?_⟩
      -- a name without a point is not taken apart
      obtain rfl : us = t :: links := by
        rw [← Node.tokens_nameOf none us, ← hUs, Node.tokens_nameOf]
      obtain ⟨j, -, hFewer, -⟩ := hParts hSplits
      exact absurd ⟨hIn, by omega⟩ hDotted

/-- The name of a single-type import is given the type it names; other imports are kept. -/
theorem resolved_ofImport {cs : List (Field × Node)}
    (h : (Node.branch .importDeclaration cs).WellFormed)
    (hBare : (Node.branch .importDeclaration cs).Bare) :
    ∃ m, (ofImport (.branch .importDeclaration cs)).value = [m] ∧
      Resolved s (.branch .importDeclaration cs) m := by
  unfold ofImport
  cases hSingle : Import.isSingle (.branch .importDeclaration cs) with
  | false => exact ⟨_, rfl, .collective hSingle⟩
  | true =>
    obtain ⟨n, hn, hForm, -⟩ := h.exists_filed_one (f := .name) [.name] (by simp [NodeKind.slots])
    obtain ⟨type, ns, rfl⟩ := Node.exists_name (List.mem_singleton.mp hForm)
    obtain rfl : type = none := by
      have hMem : (Field.name, Node.branch (.name type) ns) ∈ cs :=
        mem_of_mem_filed (hn ▸ List.mem_singleton_self _)
      cases hBare.child hMem with
      | branch hKind _ => simpa [NodeKind.isBare] using hKind
    have hName : (Node.branch .importDeclaration cs).field? .name = some (.branch (.name none) ns) := by
      simp [Node.field?, hn]
    simp only [if_true, hName]
    exact ⟨_, rfl, .single hName hSingle⟩

-- ---------------------------------------------------------------------------
-- Statements
-- ---------------------------------------------------------------------------

/-- A method attached to a call afterwards is attached to the node it was. -/
theorem resolved_called {n : Node} {d e : Field × Node} (h : Called d e) (hNode : Resolved s n d.2) :
    Resolved s n e.2 := by
  cases h with
  | same => exact hNode
  | attached f m cs =>
    cases hNode with
    | call => exact .call _ _
    | branch hk => simp [NodeKind.form] at hk

/-- Attaching methods to the calls of a statement afterwards is attaching. -/
theorem resolvedRun_called {cs ds es : List (Field × Node)} (h : ResolvedRun s cs ds)
    (hCalled : List.Forall₂ Called ds es) : ResolvedRun s cs es := by
  induction cs generalizing ds es with
  | nil =>
    cases h
    cases hCalled
    exact .nil
  | cons c cs ih =>
    cases h with
    | @cons f n m _ ds hNode hWhole hs =>
      cases hCalled with
      | @cons _ e _ es hFirst hRest =>
        obtain ⟨g, m'⟩ := e
        obtain rfl : g = f := by cases hFirst <;> rfl
        exact .cons (resolved_called hFirst hNode) hWhole (ih hs hRest)
    | divided hDivides hs =>
      -- neither the two names nor the point is a call
      have hSame {d e : Field × Node} (hd : d.2.form ≠ .call) (h : Called d e) : e = d := by
        cases h with
        | same => rfl
        | attached => exact absurd rfl hd
      cases hCalled with
      | cons hFront hRest =>
        cases hRest with
        | cons hDot hRest =>
          cases hRest with
          | cons hBack hRest =>
            rw [hSame (by simp [Node.nameOf, Node.form, NodeKind.form]) hFront,
              hSame (by simp [Node.form]) hDot,
              hSame (by simp [Node.nameOf, Node.form, NodeKind.form]) hBack]
            exact .divided hDivides (ih hs hRest)

-- ---------------------------------------------------------------------------
-- Whole trees
-- ---------------------------------------------------------------------------

/-- A run of elements is attributed part by part. -/
theorem resolvedRun_append {cs cs' ds ds' : List (Field × Node)} (h : ResolvedRun s cs ds)
    (h' : ResolvedRun s cs' ds') : ResolvedRun s (cs ++ cs') (ds ++ ds') := by
  induction cs generalizing ds with
  | nil =>
    cases h
    exact h'
  | cons c cs ih =>
    cases h with
    | cons hNode hWhole hs => exact .cons hNode hWhole (ih hs)
    | divided hDivides hs => exact .divided hDivides (ih hs)

/-- What becomes of a node elsewhere than in a statement, and as an element of one. -/
structure Attaches (s : Surroundings) (n : Node) : Prop where
  single : ∃ m, (ofNode s false n).value = [m] ∧ Resolved s.scope n m
  element : ∀ f, ResolvedRun s.scope [(f, n)] ((ofNode s true n).value.map fun m => (f, m))

/-- A node that is no name is one node wherever it stands. -/
theorem attaches_of_single {s : Surroundings} {n : Node} (hName : n.form ≠ .name)
    (h : ∀ b, ∃ m, (ofNode s b n).value = [m] ∧ Resolved s.scope n m) : Attaches s n where
  single := h false
  element f := by
    obtain ⟨m, hm, hNode⟩ := h true
    rw [hm]
    refine .cons hNode ?_ .nil
    rintro ts rfl
    exact absurd rfl hName

section Children

variable {s : Surroundings} {cs : List (Field × Node)} (h : ∀ c ∈ cs, Attaches s c.2)

include h

theorem resolvedEach_ofChildren : ResolvedEach s.scope cs (ofChildren s false cs).value := by
  induction cs with
  | nil => exact .nil
  | cons c cs ih =>
    obtain ⟨f, n⟩ := c
    obtain ⟨m, hm, hNode⟩ := (h (f, n) List.mem_cons_self).single
    rw [ofChildren, hm]
    exact .cons hNode (ih fun d hd => h d (List.mem_cons_of_mem _ hd))

theorem resolvedRun_ofChildren : ResolvedRun s.scope cs (ofChildren s true cs).value := by
  induction cs with
  | nil => exact .nil
  | cons c cs ih =>
    obtain ⟨f, n⟩ := c
    have hFirst := (h (f, n) List.mem_cons_self).element f
    have hRest := ih fun d hd => h d (List.mem_cons_of_mem _ hd)
    rw [ofChildren]
    exact resolvedRun_append hFirst hRest

end Children

/-- Attribution attaches. -/
theorem resolved_ofNode {n : Node} (h : n.WellFormed) (hBare : n.Bare) (hChained : n.Chained)
    (s : Surroundings) : Attaches s n := by
  induction h generalizing s with
  | token t =>
    refine attaches_of_single (by simp [Node.form]) fun b => ⟨.token t, ?_, .token t⟩
    rw [ofNode]
  | @branch k cs hFills hChildren ih =>
    have hFine : (Node.branch k cs).WellFormed := .branch hFills hChildren
    have hBelow (s : Surroundings) : ∀ c ∈ cs, Attaches s c.2 := fun c hc =>
      ih c hc (hBare.child hc) (hChained.child hc) s
    cases k with
    | name type =>
      obtain rfl : type = none := by
        cases hBare with
        | branch hKind _ => simpa [NodeKind.isBare] using hKind
      obtain ⟨ts, rfl⟩ := hFine.exists_tokens
      have hChain : Chain ts := by
        cases hChained with
        | branch hName _ => simpa [Node.tokensOf_eq, Node.tokens, List.flatMap_map] using hName rfl
      refine ⟨?_, fun f => ?_⟩
      · rw [ofNode]
        rcases resolved_ofName (s := s.scope) hChain false with ⟨m, hm, hNode, -⟩ | ⟨hIn, -⟩
        · exact ⟨m, hm, hNode⟩
        · cases hIn
      · rw [ofNode]
        rcases resolved_ofName (s := s.scope) hChain true with
          ⟨m, hm, hNode, hWhole⟩ | ⟨-, type, front, dot, back, hDivides, hm⟩
        · rw [hm]
          exact .cons hNode (hWhole rfl) .nil
        · rw [hm]
          exact .divided hDivides .nil
    | packageDeclaration =>
      refine attaches_of_single (by simp [Node.form, NodeKind.form]) fun b => ⟨_, ?_, .package cs⟩
      rw [ofNode]
    | importDeclaration =>
      refine attaches_of_single (by simp [Node.form, NodeKind.form]) fun b => ?_
      rw [ofNode]
      exact resolved_ofImport hFine hBare
    | statement =>
      refine attaches_of_single (by simp [Node.form, NodeKind.form]) fun b => ?_
      rw [ofNode]
      exact ⟨_, rfl, .statement
        (resolvedRun_called (resolvedRun_ofChildren (hBelow s)) (called_ofCalls s [] _))⟩
    | call m =>
      obtain ⟨t, rfl⟩ := hFine.exists_callee
      obtain rfl : m = none := by
        cases hBare with
        | branch hKind _ => simpa [NodeKind.isBare] using hKind
      refine attaches_of_single (by simp [Node.form, NodeKind.form]) fun b => ?_
      rw [ofNode_branch (by simp [NodeKind.form]) (by simp)]
      exact ⟨_, rfl, .call none _⟩
    | parameterized | block | extendsClause | method | classBody | typeDeclaration | unit =>
      refine attaches_of_single (by simp [Node.form, NodeKind.form]) fun b => ?_
      rw [ofNode_branch (by simp [NodeKind.form]) (by simp)]
      refine ⟨_, rfl, .branch (by simp [NodeKind.form]) ?_⟩
      rw [← scope_enter s]
      exact resolvedEach_ofChildren (hBelow _)

-- ---------------------------------------------------------------------------
-- Units
-- ---------------------------------------------------------------------------

/-- Attribution puts one node in the place of a unit, with meanings attached. -/
theorem resolved_ofUnit {tree : Node} (h : tree.Fresh) (classpath : Classpath) :
    (ofNode { scope := Scope.ofUnit tree classpath } false tree).value =
        [(ofUnit classpath tree).value] ∧
      Resolved (Scope.ofUnit tree classpath) tree (ofUnit classpath tree).value := by
  obtain ⟨unit, hValue, hResolved⟩ := (resolved_ofNode h.wellFormed h.bare h.chained
    { scope := Scope.ofUnit tree classpath }).single
  have hSame : (ofUnit classpath tree).value = unit := by
    unfold ofUnit
    simp only [hValue, List.headD_cons]
  exact ⟨hSame ▸ hValue, hSame ▸ hResolved⟩

/-- **A fresh unit after attribution**: one node in its place, with meanings attached and names in
statements divided, and otherwise as it was, down to the tokens and the places in the text. -/
theorem ofUnit_attaches {tree : Node} (h : tree.Fresh) (classpath : Classpath) :
    let unit := (ofUnit classpath tree).value
    (ofNode { scope := Scope.ofUnit tree classpath } false tree).value = [unit] ∧
      Resolved (Scope.ofUnit tree classpath) tree unit ∧ unit.WellFormed ∧
      unit.tokens = tree.tokens ∧ unit.text = tree.text := by
  have hTokens := tokens_ofUnit classpath h.wellFormed h.isUnit
  obtain ⟨hValue, hResolved⟩ := resolved_ofUnit h classpath
  exact ⟨hValue, hResolved, wellFormed_ofUnit classpath h.wellFormed, hTokens,
    by rw [Node.text, hTokens, Node.text]⟩

open Draft in
/-- A class with a name in a statement that is divided, for it begins with a type. -/
def dividing : Sample := .ofDraft (node "program" [
  classOf "A" none (braced "class_body" [
    fieldOf (typeWord "Object" " ") "b" (accessOf (word "A" " ") "c")])]) "\n"

set_option maxRecDepth 100000 in
theorem ofUnit_attaches_dividing : ∃ tree, dividing.unit? = some tree ∧ tree.Fresh ∧
    Resolved (Scope.ofUnit tree ⟨defaultStubs⟩) tree (ofUnit ⟨defaultStubs⟩ tree).value ∧
    tree.bodyNames.map Node.dottedName = ["Object", "b", "A.c"] ∧
    (ofUnit ⟨defaultStubs⟩ tree).value.bodyNames.map Node.dottedName = ["Object", "b", "A", "c"] := by
  have hSome : dividing.unit?.map (fun tree => (tree.bodyNames.map Node.dottedName,
      (ofUnit ⟨defaultStubs⟩ tree).value.bodyNames.map Node.dottedName)) =
      some (["Object", "b", "A.c"], ["Object", "b", "A", "c"]) := by
    decide +kernel
  obtain ⟨tree, hTree, hNames⟩ := Option.map_eq_some_iff.mp hSome
  obtain ⟨hBefore, hAfter⟩ := Prod.mk.inj hNames
  have hFresh := Parsing.fresh_of_sample (by decide +kernel) hTree
  obtain ⟨-, hResolved, -⟩ := ofUnit_attaches hFresh ⟨defaultStubs⟩
  exact ⟨tree, hTree, hFresh, hResolved, hBefore, hAfter⟩

end Attribution

end SourceMigration
