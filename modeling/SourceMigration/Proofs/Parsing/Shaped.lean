import SourceMigration.Proofs.Parsing.Outlined
import SourceMigration.Proofs.Parsing.Units
import SourceMigration.Proofs.Tree.Views

/-!
# SourceMigration — conversions go by the shape

What becomes of a concrete syntax tree, but for its tokens, is told by the types of its nodes, their fields
and how they stand below one another. Neither the text, nor the places in it, nor the numbers by which nodes
are told from one another make a difference: two trees of one shape become trees of one skeleton.

## Results

* `agrees`     — each function of the conversion makes the same of both.
* `agree_unit` — files of one shape become units of one skeleton.
-/

namespace SourceMigration

namespace TreeBuilder

open Concrete (Alike AlikeIn)

-- ---------------------------------------------------------------------------
-- Conversions that agree
-- ---------------------------------------------------------------------------

section Agree

variable {α β γ δ : Type} {g : α → γ} {k : β → δ} {x y : Conversion α} {f f' : α → Conversion β}

/-- Wherever two conversions have results, these are the same as far as `g` tells. -/
def Agree (g : α → γ) (x y : Conversion α) : Prop :=
  ∀ ⦃o v p o' w q⦄, x o = some (v, p) → y o' = some (w, q) → g v = g w

theorem agree_pure {v w : α} (h : g v = g w) : Agree g (pure v) (pure w) := by
  intro o v' p o' w' q hv hw
  cases hv
  cases hw
  exact h

theorem Agree.bind (hx : Agree g x y) (hf : ∀ v w, g v = g w → Agree k (f v) (f' w)) :
    Agree k (x >>= f) (y >>= f') := by
  intro o v p o' w q hv hw
  obtain ⟨⟨u, r⟩, hu, hv⟩ := Option.bind_eq_some_iff.mp hv
  obtain ⟨⟨u', r'⟩, hu', hw⟩ := Option.bind_eq_some_iff.mp hw
  exact hf u u' (hx hu hu') hv hw

/-- What is asked for is there for both, or there is no result. -/
theorem agree_lift {ε : Type} {o o' : Option ε} {f f' : ε → Conversion β}
    (h : ∀ v ∈ o, ∀ w ∈ o', Agree k (f v) (f' w)) : Agree k (liftM o >>= f) (liftM o' >>= f') := by
  cases o with
  | none =>
    intro _ _ _ _ _ _ hv
    cases hv
  | some v =>
    cases o' with
    | none =>
      intro _ _ _ _ _ _ _ hw
      cases hw
    | some w => exact h v rfl w rfl

theorem agree_ite {c : Prop} [Decidable c] {x' y' : Conversion α} (hPos : c → Agree g x y)
    (hNeg : ¬ c → Agree g x' y') : Agree g (if c then x else x') (if c then y else y') := by
  split
  · exact hPos ‹_›
  · exact hNeg ‹_›

end Agree

/-- The skeletons of nodes. -/
abbrev skeletons (ns : List Node) : List Node := ns.map Node.skeleton

variable {source other : List Char} {n m c d : Concrete} {ns ms : List Concrete}

theorem agree_token : Agree Node.skeleton (tokenNode source c) (tokenNode other d) := by
  intro o v p o' w q hv hw
  obtain ⟨⟨t, r⟩, -, hv⟩ := Option.bind_eq_some_iff.mp hv
  obtain ⟨⟨u, r'⟩, -, hw⟩ := Option.bind_eq_some_iff.mp hw
  cases hv
  cases hw
  rfl

theorem skeletons_append {vs vs' ws ws' : List Node} (h : skeletons vs = skeletons ws)
    (h' : skeletons vs' = skeletons ws') : skeletons (vs ++ vs') = skeletons (ws ++ ws') := by
  rw [skeletons, skeletons, List.map_append, List.map_append]
  exact congrArg₂ _ h h'

theorem skeletons_single {v w : Node} (h : v.skeleton = w.skeleton) : skeletons [v] = skeletons [w] :=
  congrArg (fun s => [s]) h

theorem skeleton_fileUnder (f : Field) (vs : List Node) :
    ((fileUnder f vs).map fun c => (c.1, c.2.skeleton)) = fileUnder f (skeletons vs) := by
  simp [fileUnder, skeletons]

theorem skeleton_statementOf (vs : List Node) : (statementOf vs).skeleton = statementOf (skeletons vs) := by
  rw [statementOf, Node.skeleton_branch, skeleton_fileUnder, statementOf]

/-- Each function of the conversion makes the same of two nodes. -/
structure Agrees (source other : List Char) (n m : Concrete) : Prop where
  alike : n.Alike m
  elements : Agree skeletons (elements source n) (elements other m)
  typeTree : Agree Node.skeleton (typeTree source n) (typeTree other m)
  block : Agree Node.skeleton (block source n) (block other m)
  extendsClause : Agree Node.skeleton (extendsClause source n) (extendsClause other m)
  classBody : Agree Node.skeleton (classBody source n) (classBody other m)
  member : Agree Node.skeleton (member source n) (member other m)
  /-- What an enumeration declares behind its constants. -/
  declarations : Agree skeletons (members source n.parts.tail) (members other m.parts.tail)

/-- The same of two lists of nodes. -/
abbrev AllAgree (source other : List Char) (ns ms : List Concrete) : Prop :=
  List.Forall₂ (Agrees source other) ns ms

-- ---------------------------------------------------------------------------
-- Nodes one after another
-- ---------------------------------------------------------------------------

section Lists

variable {R : Concrete → Concrete → Prop}

theorem related_head (h : List.Forall₂ R ns ms) : ∀ c ∈ ns.head?, ∀ d ∈ ms.head?, R c d := by
  cases h with
  | nil => nofun
  | cons hcd _ => simpa using hcd

theorem related_tail (h : List.Forall₂ R ns ms) : List.Forall₂ R ns.tail ms.tail := by
  cases h with
  | nil => exact .nil
  | cons _ h => exact h

theorem related_inner (h : List.Forall₂ R n.parts m.parts) : List.Forall₂ R n.inner m.inner := by
  rw [Concrete.inner, Concrete.inner, List.dropLast_eq_take, List.dropLast_eq_take,
    (related_tail h).length_eq]
  exact List.forall₂_take _ (related_tail h)

end Lists

theorem agree_elementsOf (h : AllAgree source other ns ms) :
    Agree skeletons (elementsOf source ns) (elementsOf other ms) := by
  induction h with
  | nil =>
    rw [elementsOf, elementsOf]
    exact agree_pure rfl
  | cons hcd _ ih =>
    rw [elementsOf, elementsOf]
    exact hcd.elements.bind fun es fs h => ih.bind fun es' fs' h' => agree_pure (skeletons_append h h')

theorem agree_members (h : AllAgree source other ns ms) :
    Agree skeletons (members source ns) (members other ms) := by
  induction h with
  | nil =>
    rw [members, members]
    exact agree_pure rfl
  | cons hcd _ ih =>
    rw [members, members]
    exact hcd.member.bind fun v w h => ih.bind fun vs ws h' =>
      agree_pure (congrArg₂ List.cons h h')

theorem agree_tokens (h : ns.length = ms.length) :
    Agree skeletons (ns.mapM (tokenNode source)) (ms.mapM (tokenNode other)) := by
  induction ns generalizing ms with
  | nil =>
    obtain rfl := List.eq_nil_of_length_eq_zero h.symm
    exact agree_pure rfl
  | cons c cs ih =>
    obtain ⟨d, ds, rfl⟩ := List.exists_cons_of_length_eq_add_one h.symm
    rw [List.mapM_cons, List.mapM_cons]
    refine agree_token.bind fun v w h' => (ih (by simpa using h)).bind fun vs ws h'' => ?_
    exact agree_pure (congrArg₂ List.cons h' h'')

theorem agree_nameTree (h : n.Alike m) : Agree Node.skeleton (nameTree source n) (nameTree other m) := by
  refine (agree_tokens h.length_leaves).bind fun vs ws h' => agree_pure ?_
  rw [Node.skeleton_branch, Node.skeleton_branch, skeleton_fileUnder, skeleton_fileUnder, h']

theorem agree_typeTree (h : n.Alike m) (hParts : AllAgree source other n.parts m.parts) :
    Agree Node.skeleton (typeTree source n) (typeTree other m) := by
  rw [typeTree, typeTree, ← h.type_eq]
  refine agree_ite (fun _ => agree_nameTree h) fun _ => agree_lift fun c hc d hd => ?_
  refine (agree_nameTree (related_head hParts c hc d hd).alike).bind fun v w h => ?_
  refine (agree_elementsOf (related_tail hParts)).bind fun es fs h' => agree_pure ?_
  rw [Node.skeleton_branch, Node.skeleton_branch, List.map_cons, List.map_cons, skeleton_fileUnder,
    skeleton_fileUnder, h, h']

-- ---------------------------------------------------------------------------
-- Between braces
-- ---------------------------------------------------------------------------

theorem agree_statements (h : AllAgree source other ns ms) {done done' : List (List Node)}
    (hDone : done.map skeletons = done'.map skeletons) :
    Agree (List.map skeletons) (statements source ns done) (statements other ms done') := by
  induction h generalizing done done' with
  | nil =>
    rw [statements, statements]
    exact agree_pure hDone
  | cons hcd _ ih =>
    have hNone := congrArg List.isEmpty hDone
    rw [List.isEmpty_map, List.isEmpty_map] at hNone
    have hLast : skeletons (done.getLastD []) = skeletons (done'.getLastD []) := by
      have hLast := congrArg List.getLast? hDone
      rw [List.getLast?_map, List.getLast?_map] at hLast
      rw [List.getLastD_eq_getLast?, List.getLastD_eq_getLast?]
      cases hd : done.getLast? <;> cases hd' : done'.getLast? <;> simp_all
    rw [statements, statements, ← hcd.alike.isNamed_eq, ← hNone]
    refine hcd.elements.bind fun es fs h => agree_ite (fun _ => ih ?_) fun _ => ih ?_
    · rw [List.map_append, List.map_append, hDone]
      exact congrArg (_ ++ [·]) h
    · rw [List.map_append, List.map_append, List.map_dropLast, List.map_dropLast, hDone]
      exact congrArg (_ ++ [·]) (skeletons_append hLast h)

theorem agree_block (hParts : AllAgree source other n.parts m.parts) :
    Agree Node.skeleton (block source n) (block other m) := by
  rw [block, block]
  refine agree_lift fun _ _ _ _ => agree_token.bind fun o o' ho => ?_
  refine (agree_statements (related_inner hParts) rfl).bind fun vs ws hInside => ?_
  refine agree_lift fun _ _ _ _ => agree_token.bind fun c c' hc => agree_pure ?_
  have hStatements : skeletons (vs.map statementOf) = skeletons (ws.map statementOf) := by
    have hEach (vs : List (List Node)) :
      skeletons (vs.map statementOf) = (vs.map skeletons).map statementOf := by
      simp [skeletons, skeleton_statementOf]
    rw [hEach, hInside, hEach]
  rw [Node.skeleton_branch, Node.skeleton_branch]
  simp only [List.cons_append, List.map_cons, List.map_append, skeleton_fileUnder, hStatements, ho, hc]

theorem agree_enumMembers (h : AllAgree source other ns ms) {constants constants' : List Node}
    (hConstants : skeletons constants = skeletons constants') :
    Agree skeletons (enumMembers source ns constants) (enumMembers other ms constants') := by
  induction h generalizing constants constants' with
  | nil =>
    have hNone := congrArg List.isEmpty hConstants
    rw [List.isEmpty_map, List.isEmpty_map] at hNone
    rw [enumMembers, enumMembers, hNone]
    refine agree_pure ?_
    split
    · rfl
    · exact skeletons_single (by rw [skeleton_statementOf, hConstants, skeleton_statementOf])
  | cons hcd _ ih =>
    rw [enumMembers, enumMembers, ← hcd.alike.type_eq]
    refine agree_ite (fun _ => ?_) fun _ => agree_lift fun _ _ _ _ => ?_
    · exact hcd.elements.bind fun es fs h => ih (skeletons_append hConstants h)
    · refine agree_token.bind fun v w h => hcd.declarations.bind fun vs ws h' => ?_
      refine (ih rfl).bind fun vs' ws' h'' => agree_pure ?_
      have hFirst : (statementOf (constants ++ [v])).skeleton =
        (statementOf (constants' ++ [w])).skeleton := by
        rw [skeleton_statementOf, skeletons_append hConstants (skeletons_single h), skeleton_statementOf]
      exact skeletons_append (congrArg₂ List.cons hFirst h') h''

theorem agree_classBody (h : n.Alike m) (hParts : AllAgree source other n.parts m.parts) :
    Agree Node.skeleton (classBody source n) (classBody other m) := by
  rw [classBody, classBody, ← h.type_eq]
  refine agree_lift fun _ _ _ _ => agree_token.bind fun o o' ho => ?_
  have hInside : Agree skeletons
      (if n.type == "enum_body" then enumMembers source n.inner [] else members source n.inner)
      (if n.type == "enum_body" then enumMembers other m.inner [] else members other m.inner) :=
    agree_ite (fun _ => agree_enumMembers (related_inner hParts) rfl) fun _ =>
    agree_members (related_inner hParts)
  refine hInside.bind fun vs ws h' => agree_lift fun _ _ _ _ => agree_token.bind fun c c' hc => agree_pure ?_
  rw [Node.skeleton_branch, Node.skeleton_branch]
  simp only [List.cons_append, List.map_cons, List.map_append, skeleton_fileUnder, h', ho, hc]

-- ---------------------------------------------------------------------------
-- Declarations by their fields
-- ---------------------------------------------------------------------------

/-- The parts of two nodes, with what is found in the fields of either. -/
abbrev PartsAgree (source other : List Char) (n m : Concrete) (ns ms : List Concrete) : Prop :=
  List.Forall₂ (fun c d => AlikeIn n m c d ∧ Agrees source other c d) ns ms

theorem PartsAgree.all (h : PartsAgree source other n m ns ms) : AllAgree source other ns ms :=
  h.imp fun _ _ hcd => hcd.2

theorem isExtends?_eq (h : n.Alike m) : isExtends? n = isExtends? m := by
  have hParts := h.parts
  unfold isExtends?
  generalize n.parts = ns, m.parts = ms at hParts
  rcases hParts with _ | ⟨_, _ | ⟨hType, _ | _⟩⟩
  · rfl
  · rfl
  · exact hType.alike.isTypeTree?_eq
  · rfl

theorem agree_extendsClause (hParts : AllAgree source other n.parts m.parts) :
    Agree Node.skeleton (extendsClause source n) (extendsClause other m) := by
  rw [extendsClause, extendsClause]
  split
  · rename_i keyword type hn
    split
    · rename_i keyword' type' hm
      rw [hn, hm] at hParts
      obtain ⟨-, hType⟩ : _ ∧ Agrees source other type type' := by simpa using hParts
      refine agree_token.bind fun k k' hk => hType.typeTree.bind fun v w h => agree_pure ?_
      simp [Node.skeleton_branch, hk, h]
    · intro _ _ _ _ _ _ _ hw
      cases hw
  · intro _ _ _ _ _ _ hv
    cases hv

/-- The skeletons of what is found of a type declaration. -/
def DeclarationParts.skeleton (p : DeclarationParts) : DeclarationParts where
  modifiers := skeletons p.modifiers
  kind := p.kind.map Node.skeleton
  name := p.name.map Node.skeleton
  header := skeletons p.header
  superclass := p.superclass.map Node.skeleton
  tail := skeletons p.tail
  body := p.body.map Node.skeleton

theorem skeletons_toList (v : Option Node) : skeletons v.toList = (v.map Node.skeleton).toList := by
  cases v <;> rfl

theorem DeclarationParts.skeleton_toNode (p : DeclarationParts) : p.toNode.skeleton = p.skeleton.toNode := by
  simp only [toNode, Node.skeleton_branch, List.map_append, skeleton_fileUnder, skeletons_toList, skeleton]

theorem agree_declarationPart (hcd : AlikeIn n m c d) (h : Agrees source other c d) {p q : DeclarationParts}
    (hpq : p.skeleton = q.skeleton) :
    Agree DeclarationParts.skeleton (declarationPart source n c p) (declarationPart other m d q) := by
  have hKind := congrArg (·.kind.isNone) hpq
  have hSuperclass := congrArg (·.superclass.isNone) hpq
  have hTail := congrArg (·.tail.isEmpty) hpq
  simp only [DeclarationParts.skeleton, Option.isNone_map, List.isEmpty_map] at hKind hSuperclass hTail
  rw [declarationPart, declarationPart, ← hKind, ← hSuperclass, ← hTail, ← h.alike.type_eq, ← hcd.isSame,
    ← hcd.isSame, ← isExtends?_eq h.alike]
  simp only [DeclarationParts.skeleton, DeclarationParts.mk.injEq] at hpq
  -- a part that goes to the header or to the tail
  have hOther : Agree DeclarationParts.skeleton
      (if (p.superclass.isNone && p.tail.isEmpty && headerTypes.contains c.type) = true then do
        return { p with header := p.header ++ (← elements source c) }
      else return { p with tail := p.tail ++ (← elements source c) })
      (if (p.superclass.isNone && p.tail.isEmpty && headerTypes.contains c.type) = true then do
        return { q with header := q.header ++ (← elements other d) }
      else return { q with tail := q.tail ++ (← elements other d) }) :=
    agree_ite
      (fun _ => h.elements.bind fun es fs h' => agree_pure (by simp [DeclarationParts.skeleton, hpq, h']))
      fun _ => h.elements.bind fun es fs h' => agree_pure (by simp [DeclarationParts.skeleton, hpq, h'])
  refine agree_ite (fun _ => agree_ite (fun _ => ?_) fun _ => ?_) fun _ =>
    agree_ite (fun _ => ?_) fun _ => agree_ite (fun _ => ?_) fun _ =>
      agree_ite (fun _ => agree_lift fun a ha b hb => ?_) fun _ => hOther
  · exact h.elements.bind fun es fs h' => agree_pure (by simp [DeclarationParts.skeleton, hpq, h'])
  · exact agree_token.bind fun v w h' => agree_pure (by simp [DeclarationParts.skeleton, hpq, h'])
  · exact agree_token.bind fun v w h' => agree_pure (by simp [DeclarationParts.skeleton, hpq, h'])
  · exact h.classBody.bind fun v w h' => agree_pure (by simp [DeclarationParts.skeleton, hpq, h'])
  · obtain rfl := Option.some.inj (ha.symm.trans hb)
    refine agree_ite (fun _ => ?_) fun _ => hOther
    exact h.extendsClause.bind fun v w h' => agree_pure (by simp [DeclarationParts.skeleton, hpq, h'])

theorem agree_declarationParts (h : PartsAgree source other n m ns ms) {p q : DeclarationParts}
    (hpq : p.skeleton = q.skeleton) :
    Agree DeclarationParts.skeleton (declarationParts source n ns p) (declarationParts other m ms q) := by
  induction h generalizing p q with
  | nil =>
    rw [declarationParts, declarationParts]
    exact agree_pure hpq
  | cons hcd _ ih =>
    rw [declarationParts, declarationParts]
    exact (agree_declarationPart hcd.1 hcd.2 hpq).bind fun p q hpq => ih hpq

theorem agree_typeDeclaration (hParts : PartsAgree source other n m n.parts m.parts) :
    Agree Node.skeleton (typeDeclaration source n) (typeDeclaration other m) := by
  rw [typeDeclaration, typeDeclaration]
  refine (agree_declarationParts hParts rfl).bind fun p q hpq => agree_pure ?_
  rw [p.skeleton_toNode, hpq, q.skeleton_toNode]

/-- The skeletons of what is found of a method. -/
def MethodParts.skeleton (p : MethodParts) : MethodParts where
  modifiers := skeletons p.modifiers
  name := p.name.map Node.skeleton
  parameters := skeletons p.parameters
  tail := skeletons p.tail
  body := p.body.map Node.skeleton
  terminator := p.terminator.map Node.skeleton

theorem MethodParts.skeleton_toNode (p : MethodParts) : p.toNode.skeleton = p.skeleton.toNode := by
  simp only [toNode, Node.skeleton_branch, List.map_append, skeleton_fileUnder, skeletons_toList, skeleton]

theorem agree_methodPart (hn : n.Alike m) (hcd : AlikeIn n m c d) (h : Agrees source other c d)
    (isLast : Bool)
    {p q : MethodParts} (hpq : p.skeleton = q.skeleton) :
    Agree MethodParts.skeleton (methodPart source n c isLast p) (methodPart other m d isLast q) := by
  have hName := congrArg (·.name.isNone) hpq
  have hTail := congrArg (·.tail.isEmpty) hpq
  simp only [MethodParts.skeleton, Option.isNone_map, List.isEmpty_map] at hName hTail
  have hParameters : isParameters m q d = isParameters n p c := by
    rw [isParameters, isParameters, ← hcd.isSame, ← hn.isNone_field, ← hTail, ← h.alike.type_eq]
  rw [methodPart, methodPart, ← hName, hParameters, ← h.alike.type_eq, ← hcd.isSame, ← hcd.isSame]
  simp only [MethodParts.skeleton, MethodParts.mk.injEq] at hpq
  refine agree_ite (fun _ => agree_ite (fun _ => ?_) fun _ => ?_) fun _ =>
    agree_ite (fun _ => ?_) fun _ => agree_ite (fun _ => ?_) fun _ => agree_ite (fun _ => ?_) fun _ => ?_
  · exact agree_token.bind fun v w h' => agree_pure (by simp [MethodParts.skeleton, hpq, h'])
  · exact h.elements.bind fun es fs h' => agree_pure (by simp [MethodParts.skeleton, hpq, h'])
  · exact h.block.bind fun v w h' => agree_pure (by simp [MethodParts.skeleton, hpq, h'])
  · exact h.elements.bind fun es fs h' => agree_pure (by simp [MethodParts.skeleton, hpq, h'])
  · exact agree_token.bind fun v w h' => agree_pure (by simp [MethodParts.skeleton, hpq, h'])
  · exact h.elements.bind fun es fs h' => agree_pure (by simp [MethodParts.skeleton, hpq, h'])

theorem agree_methodParts (hn : n.Alike m) (h : PartsAgree source other n m ns ms) {p q : MethodParts}
    (hpq : p.skeleton = q.skeleton) :
    Agree MethodParts.skeleton (methodParts source n ns p) (methodParts other m ms q) := by
  induction h generalizing p q with
  | nil =>
    rw [methodParts, methodParts]
    exact agree_pure hpq
  | @cons c d cs ds hcd hRest ih =>
    have hLast : cs.isEmpty = ds.isEmpty := by
      cases hRest <;> rfl
    rw [methodParts, methodParts, hLast]
    exact (agree_methodPart hn hcd.1 hcd.2 _ hpq).bind fun p q hpq => ih hpq

theorem agree_method (hn : n.Alike m) (hParts : PartsAgree source other n m n.parts m.parts) :
    Agree Node.skeleton (method source n) (method other m) := by
  rw [method, method]
  refine (agree_methodParts hn hParts rfl).bind fun p q hpq => agree_pure ?_
  rw [p.skeleton_toNode, hpq, q.skeleton_toNode]

-- ---------------------------------------------------------------------------
-- All together
-- ---------------------------------------------------------------------------

theorem agree_invocation (h : PartsAgree source other n m ns ms) (field : String) :
    Agree skeletons (invocation source (n.field? field) ns) (invocation other (m.field? field) ms) := by
  induction h with
  | nil =>
    rw [invocation, invocation]
    exact agree_pure rfl
  | cons hcd _ ih =>
    rw [invocation, invocation, ← hcd.1.isSame]
    refine agree_ite (fun _ => agree_token.bind fun v w h => ?_) fun _ =>
      hcd.2.elements.bind fun es fs h => ?_
    · refine ih.bind fun es fs h' => agree_pure (congrArg₂ List.cons ?_ h')
      simp [Node.skeleton_branch, h]
    · exact ih.bind fun es' fs' h' => agree_pure (skeletons_append h h')

theorem agree_elements (h : n.Alike m) (hParts : PartsAgree source other n m n.parts m.parts) :
    Agree skeletons (elements source n) (elements other m) := by
  rw [elements, elements, ← h.isComment_eq, ← h.type_eq, ← h.isName_eq, ← h.isLeaf_eq, ← h.isTypeTree?_eq,
    ← h.areBraced_eq]
  have hSingle {x y : Conversion Node} (hxy : Agree Node.skeleton x y) :
      Agree skeletons (do return [← x]) (do return [← y]) :=
    hxy.bind fun v w h => agree_pure (skeletons_single h)
  have hOther : Agree skeletons
      (if typeDeclarations.contains n.type then do return [← typeDeclaration source n]
      else if n.type == "method_invocation" then invocation source (n.field? "name") n.parts
      else if Concrete.areBraced n.parts then do return [← block source n]
      else elementsOf source n.parts)
      (if typeDeclarations.contains n.type then do return [← typeDeclaration other m]
      else if n.type == "method_invocation" then invocation other (m.field? "name") m.parts
      else if Concrete.areBraced n.parts then do return [← block other m]
      else elementsOf other m.parts) :=
    agree_ite (fun _ => hSingle (agree_typeDeclaration hParts)) fun _ =>
      agree_ite (fun _ => agree_invocation hParts "name") fun _ =>
        agree_ite (fun _ => hSingle (agree_block hParts.all)) fun _ => agree_elementsOf hParts.all
  refine agree_ite (fun _ => agree_pure rfl) fun _ => agree_ite (fun _ => hSingle (agree_nameTree h)) fun _ =>
    agree_ite (fun _ => hSingle agree_token) fun _ =>
      agree_ite (fun _ => agree_lift fun a ha b hb => ?_) fun _ => hOther
  obtain rfl := Option.some.inj (ha.symm.trans hb)
  exact agree_ite (fun _ => hSingle (agree_typeTree h hParts.all)) fun _ => hOther

theorem agree_member (h : n.Alike m) (hParts : PartsAgree source other n m n.parts m.parts) :
    Agree Node.skeleton (member source n) (member other m) := by
  rw [member, member, ← h.type_eq]
  refine agree_ite (fun _ => agree_typeDeclaration hParts) fun _ => agree_ite (fun _ => agree_method h hParts)
    fun _ => (agree_elements h hParts).bind fun es fs h' => agree_pure ?_
  rw [skeleton_statementOf, h', skeleton_statementOf]

/-- Each function of the conversion makes the same of two nodes of one shape, whatever the texts are. -/
theorem agrees (source other : List Char) (h : n.Alike m) : Agrees source other n m := by
  induction hSize : n.size using Nat.strongRecOn generalizing n m with
  | ind size ih =>
    have hParts : PartsAgree source other n m n.parts m.parts := by
      refine List.forall₂_iff_zip.mpr ⟨h.parts.length_eq, fun {c d} hcd => ?_⟩
      have hIn := (List.forall₂_iff_zip.mp h.parts).2 hcd
      exact ⟨hIn, ih _ (hSize ▸ Concrete.size_lt_of_mem_parts (List.of_mem_zip hcd).1) hIn.alike rfl⟩
    exact {
      alike := h
      elements := agree_elements h hParts
      typeTree := agree_typeTree h hParts.all
      block := agree_block hParts.all
      extendsClause := agree_extendsClause hParts.all
      classBody := agree_classBody h hParts.all
      member := agree_member h hParts
      declarations := agree_members (related_tail hParts.all) }

-- ---------------------------------------------------------------------------
-- Files
-- ---------------------------------------------------------------------------

/-- Filing agrees on parts that are alike if it does on each of them. -/
theorem agree_foldlM {α β : Type} (g : α → β) {file file' : α → Concrete → Conversion α}
    (h : List.Forall₂ (fun c d => ∀ p q, g p = g q → Agree g (file p c) (file' q d)) ns ms) {p q : α}
    (hpq : g p = g q) : Agree g (ns.foldlM file p) (ms.foldlM file' q) := by
  induction h generalizing p q with
  | nil => exact agree_pure hpq
  | cons hcd _ ih =>
    rw [List.foldlM_cons, List.foldlM_cons]
    exact (hcd p q hpq).bind fun p q hpq => ih hpq

/-- The skeletons of what is found of a package. -/
def PackageParts.skeleton (p : PackageParts) : PackageParts where
  modifiers := skeletons p.modifiers
  keyword := p.keyword.map Node.skeleton
  name := p.name.map Node.skeleton
  semicolon := p.semicolon.map Node.skeleton

theorem agree_packagePart (h : c.Alike d) {p q : PackageParts} (hpq : p.skeleton = q.skeleton) :
    Agree PackageParts.skeleton (packagePart source p c) (packagePart other q d) := by
  have hKeyword := congrArg (·.keyword.isNone) hpq
  simp only [PackageParts.skeleton, Option.isNone_map] at hKeyword
  rw [packagePart, packagePart, ← hKeyword, ← h.type_eq]
  simp only [PackageParts.skeleton, PackageParts.mk.injEq] at hpq
  refine agree_ite (fun _ => ?_) fun _ => agree_ite (fun _ => ?_) fun _ => agree_ite (fun _ => ?_) fun _ => ?_
  · exact agree_token.bind fun v w h' => agree_pure (by simp [PackageParts.skeleton, hpq, h'])
  · exact agree_token.bind fun v w h' => agree_pure (by simp [PackageParts.skeleton, hpq, h'])
  · exact (agrees source other h).elements.bind fun es fs h' =>
      agree_pure (by simp [PackageParts.skeleton, hpq, h'])
  · exact (agree_nameTree h).bind fun v w h' => agree_pure (by simp [PackageParts.skeleton, hpq, h'])

theorem agree_package (h : n.Alike m) : Agree Node.skeleton (package source n) (package other m) := by
  refine (agree_foldlM PackageParts.skeleton (h.parts.imp fun c d hcd p q => agree_packagePart hcd.alike)
    rfl).bind fun p q hpq => ?_
  refine agree_pure ?_
  simp only [PackageParts.skeleton, PackageParts.mk.injEq] at hpq
  simp only [Node.skeleton_branch, List.map_append, skeleton_fileUnder, skeletons_toList, hpq]

/-- The skeletons of what is found of an import. -/
def ImportParts.skeleton (p : ImportParts) : ImportParts where
  keyword := p.keyword.map Node.skeleton
  staticWord := p.staticWord.map Node.skeleton
  name := p.name.map Node.skeleton
  wildcard := skeletons p.wildcard
  semicolon := p.semicolon.map Node.skeleton

theorem agree_importPart (h : c.Alike d) {p q : ImportParts} (hpq : p.skeleton = q.skeleton) :
    Agree ImportParts.skeleton (importPart source p c) (importPart other q d) := by
  rw [importPart, importPart, ← h.type_eq]
  simp only [ImportParts.skeleton, ImportParts.mk.injEq] at hpq
  refine agree_ite (fun _ => ?_) fun _ => agree_ite (fun _ => ?_) fun _ => agree_ite (fun _ => ?_) fun _ =>
    agree_ite (fun _ => ?_) fun _ => ?_
  · exact agree_token.bind fun v w h' => agree_pure (by simp [ImportParts.skeleton, hpq, h'])
  · exact agree_token.bind fun v w h' => agree_pure (by simp [ImportParts.skeleton, hpq, h'])
  · exact agree_token.bind fun v w h' => agree_pure (by simp [ImportParts.skeleton, hpq, h'])
  · exact agree_token.bind fun v w h' => agree_pure (by simp [ImportParts.skeleton, hpq, h'])
  · exact (agree_nameTree h).bind fun v w h' => agree_pure (by simp [ImportParts.skeleton, hpq, h'])

theorem agree_importOf (h : n.Alike m) : Agree Node.skeleton (importOf source n) (importOf other m) := by
  refine (agree_foldlM ImportParts.skeleton (h.parts.imp fun c d hcd p q => agree_importPart hcd.alike)
    rfl).bind fun p q hpq => ?_
  refine agree_pure ?_
  simp only [ImportParts.skeleton, ImportParts.mk.injEq] at hpq
  simp only [Node.skeleton_branch, List.map_append, skeleton_fileUnder, skeletons_toList, hpq]

/-- The skeletons of what is found of a file. -/
def FileParts.skeleton (p : FileParts) : FileParts where
  package := p.package.map Node.skeleton
  imports := skeletons p.imports
  types := skeletons p.types

theorem agree_filePart (h : c.Alike d) {p q : FileParts} (hpq : p.skeleton = q.skeleton) :
    Agree FileParts.skeleton (filePart source p c) (filePart other q d) := by
  have hPackage := congrArg (·.package.isNone) hpq
  have hImports := congrArg (·.imports.isEmpty) hpq
  have hTypes := congrArg (·.types.isEmpty) hpq
  simp only [FileParts.skeleton, Option.isNone_map, List.isEmpty_map] at hPackage hImports hTypes
  rw [filePart, filePart, ← hPackage, ← hImports, ← hTypes, ← h.type_eq]
  simp only [FileParts.skeleton, FileParts.mk.injEq] at hpq
  refine agree_ite (fun _ => ?_) fun _ => agree_ite (fun _ => ?_) fun _ => ?_
  · exact (agree_package h).bind fun v w h' => agree_pure (by simp [FileParts.skeleton, hpq, h'])
  · exact (agree_importOf h).bind fun v w h' => agree_pure (by simp [FileParts.skeleton, hpq, h'])
  · exact (agrees source other h).member.bind fun v w h' => agree_pure (by simp [FileParts.skeleton, hpq, h'])

/-- Files of one shape become units of one skeleton, whatever the texts are. -/
theorem agree_unit (source other : List Char) (h : List.Forall₂ Alike n.parts m.parts) :
    Agree Node.skeleton (unit source n) (unit other m) := by
  refine (agree_foldlM FileParts.skeleton (h.imp fun c d hcd p q =>
    agree_filePart hcd) rfl).bind fun p q hpq => ?_
  have hEnd : Agree Node.skeleton (Node.token <$> endMarker source) (Node.token <$> endMarker other) := by
    intro o v p o' w q hv hw
    obtain ⟨⟨t, r⟩, -, hv⟩ := Option.bind_eq_some_iff.mp hv
    obtain ⟨⟨u, r'⟩, -, hw⟩ := Option.bind_eq_some_iff.mp hw
    cases hv
    cases hw
    rfl
  refine hEnd.bind fun v w h' => agree_pure ?_
  simp only [FileParts.skeleton, FileParts.mk.injEq] at hpq
  simp only [Node.skeleton_branch, List.map_append, List.map_cons, List.map_nil, skeleton_fileUnder,
    skeletons_toList, hpq, h']

end TreeBuilder

end SourceMigration
