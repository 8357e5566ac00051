import SourceMigration.Proofs.Parsing.Declared

/-!
# SourceMigration — every node is converted

The functions of the conversion are put together: whatever a regular node is, each of them makes of it what
it should, by induction on the size of the node.

## Results

* `reads_elements` — what a node becomes among the elements of a run.
* `converts`       — what each function of the conversion makes of a node.
-/

namespace SourceMigration

open Concrete (nameTypes atomicTypes_of_nameTypes)

namespace TreeBuilder

variable {source : List Char} {root n c : Concrete} {ns : List Concrete}

-- ---------------------------------------------------------------------------
-- Types
-- ---------------------------------------------------------------------------

/-- A class type becomes a name, or a name with type arguments. -/
theorem reads_typeTree (hRegular : ∀ m ∈ root.inside, m.Regular) (hn : n ∈ root.inside)
    (hComment : n.isComment = false) (h : ∀ c ∈ n.parts, Converts source root c)
    (hTree : n.isTypeTree? = some true) :
    Reads source (typeTree source n) n.lexemes (Single source root [.name, .parameterized]) := by
  rw [typeTree]
  by_cases hType : n.type = "generic_type"
  · obtain ⟨base, rest, hParts, hBase⟩ := (hRegular n hn).genericType hType
    have hMem : base ∈ n.parts := by simp [hParts]
    have hName : base.isName = true := by
      simpa [Concrete.isTypeTree?, hType, hParts] using hTree
    have hHead : n.parts.head? = some base := by rw [hParts, List.head?_cons]
    rw [if_neg (by simp [hType]), hHead, lift_some_bind,
      Concrete.lexemes_of_parts hComment hParts (by simp) (by rw [hType]; rfl), hParts,
      List.flatMap_cons, List.tail_cons]
    refine (reads_nameTree hRegular (Concrete.mem_inside_of_parts hn hMem)
      (Concrete.isComment_of_mem_parts hMem)
      hBase hName).bind fun v ts hv => ?_
    refine (reads_elementsOf fun c hc => (h c (by simp [hParts, hc])).elements).bind_pure fun es us hes => ?_
    have hRun : Run (IsList source root) elementForms es := hes.run
    refine ⟨?_, solid_branch (by simp [NodeKind.form]) rfl ?_ trivial ?_ ?_,
      by simp [Node.form, NodeKind.form]⟩
    · rw [Node.tokens, Node.tokensOf, hv.tokens, tokensOf_fileUnder, hes.tokens]
    · exact .single (by simp) (by simpa using hv.form) (hRun.fills (s := ⟨.arguments, _, _⟩) rfl)
    · rw [List.map_cons, map_snd_fileUnder, ← List.singleton_append]
      exact (argued_of_forms (by simpa using hv.not_call (by decide))).append hRun.argued
    · intro c hc
      rcases List.mem_cons.mp hc with rfl | hc
      · exact hv.solid
      · exact solid_fileUnder hRun.solid _ c hc
  · rw [if_pos (by simpa using hType)]
    rw [Concrete.isTypeTree?] at hTree
    split at hTree
    · rename_i hNameType
      have hNameType : nameTypes.contains n.type = true := by
        simp only [List.contains_iff_mem, List.mem_cons, List.not_mem_nil, or_false] at hNameType ⊢
        rcases hNameType with h | h <;> simp [h, nameTypes]
      refine (reads_nameTree hRegular hn hComment hNameType (Option.some.inj hTree)).mono fun v ts hv => ?_
      exact ⟨hv.tokens, hv.solid, by simpa using Or.inl (by simpa using hv.form)⟩
    · simp [hType] at hTree

-- ---------------------------------------------------------------------------
-- Calls
-- ---------------------------------------------------------------------------

theorem invocation_cons (name : Option Concrete) (c : Concrete) (cs : List Concrete) :
    invocation source name (c :: cs) =
      if c.isSame name then do
        return .branch (.call none) [(.callee, ← tokenNode source c)] :: (← invocation source name cs)
      else do return (← elements source c) ++ (← invocation source name cs) := by
  rw [invocation]

/-- The name of a call and its arguments. -/
theorem reads_called {name arguments : Concrete} {field : Option Concrete} (hName : name.lexemes = [name])
    (hSame : name.isSame field = true) (hOther : arguments.isSame field = false)
    (hIn : arguments ∈ root.inside) (hType : arguments.type = "argument_list")
    (h : Converts source root arguments) :
    Reads source (invocation source field [name, arguments])
      ([name, arguments].flatMap Concrete.lexemes) fun es ts =>
        es.flatMap Node.tokens = ts ∧ Run (IsList source root) elementForms es ∧ es ≠ [] ∧
          openAfter? 0 es = some 0 ∧ ∀ e ∈ es.head?, e.isToken "," = false := by
  have hLast : invocation source field [] = pure [] := by rw [invocation]
  rw [invocation_cons, if_pos hSame, invocation_cons, if_neg (by simp [hOther]), hLast, List.flatMap_cons,
    List.flatMap_singleton]
  refine (reads_tokenNode hName).bind fun v ts hv => ?_
  obtain ⟨t, rfl, rfl, -⟩ := hv
  simp only [pure_bind, bind_assoc, List.append_nil]
  refine h.elements.made.bind_pure fun es us hes => ?_
  obtain ⟨hes, offset, stop, hMade⟩ := hes
  have hLevel := hes.level (by rw [hType]; rfl)
  have hCall : (Node.branch (.call none) [(.callee, Node.token t)]).Solid (IsList source root) :=
    solid_branch (by simp [NodeKind.form]) rfl (.single (by simp) (by simp [Node.form]) (.refl [])) trivial
      (argued_of_forms (by simp [Node.form])) (by simpa using solid_token t)
  refine ⟨by simp [Node.tokens, Node.tokensOf, hes.tokens], ⟨?_, ?_, ?_⟩, by simp, ?_, by simp [Node.isToken]⟩
  · simpa using ⟨hCall, hes.run.solid⟩
  · simpa [Node.form, NodeKind.form, elementForms] using hes.run.forms
  · exact argued_call ⟨arguments, hIn, hType, offset, us, stop, hMade⟩ hes.run.argued
  · simpa [openAfter?, Node.isToken] using hLevel

/-- What stands before the name of a call becomes a run by itself, and the name and the arguments another. -/
theorem reads_before {field : Option Concrete} {called : List Concrete} {P : List Node → List Token → Prop}
    (hCalled : Reads source (invocation source field called) (called.flatMap Concrete.lexemes) P)
    {before : List Concrete} (hOthers : ∀ b ∈ before, b.isSame field = false)
    (h : ∀ b ∈ before, Converts source root b) :
    Reads source (invocation source field (before ++ called)) ((before ++ called).flatMap Concrete.lexemes)
      fun es ts => ∃ fs gs us vs, es = fs ++ gs ∧ ts = us ++ vs ∧ Gathered source root before fs us ∧
        P gs vs := by
  induction before with
  | nil => exact hCalled.mono fun es ts hes => ⟨[], es, [], ts, rfl, rfl, gathered_nil, hes⟩
  | cons b bs ih =>
    rw [List.cons_append, invocation_cons, if_neg (by simp [hOthers b List.mem_cons_self]),
      List.flatMap_cons]
    refine (h b List.mem_cons_self).elements.bind fun es ts hes =>
      (ih (fun d hd => hOthers d (List.mem_cons_of_mem _ hd)) fun d hd =>
        h d (List.mem_cons_of_mem _ hd)).bind_pure fun es' us hes' => ?_
    obtain ⟨fs, gs, us, vs, rfl, rfl, hFs, hGs⟩ := hes'
    exact ⟨es ++ fs, gs, ts ++ us, vs, by simp, by simp, hes.cons hFs, hGs⟩

/-- Neither the name of a call nor its arguments open or close parentheses that others do. -/
theorem openAfter_called {name : String} (hWord : Concrete.wordTypes.contains name = true)
    (types : List String) (depth : Nat) :
    Concrete.openAfter? depth (types ++ [name, "argument_list"]) = Concrete.openAfter? depth types := by
  have hOther : name ≠ "(" ∧ name ≠ ")" := by
    constructor <;> rintro rfl <;> simp [Concrete.wordTypes] at hWord
  induction types generalizing depth with
  | nil => simp [Concrete.openAfter?, hOther.1, hOther.2]
  | cons t ts ih => simp [Concrete.openAfter?, ih]

/-- A call becomes the elements before its name, the name told from the names around it, and its arguments. -/
theorem reads_invocation (hRegular : ∀ m ∈ root.inside, m.Regular) (hn : n ∈ root.inside)
    (h : ∀ c ∈ n.parts, Converts source root c) (hType : n.type = "method_invocation") :
    Reads source (invocation source (n.field? "name") n.parts) (n.parts.flatMap Concrete.lexemes)
      (Elements source root n) := by
  obtain ⟨before, name, arguments, hParts, hArguments, hSame, hWord⟩ := (hRegular n hn).invocation hType
  have hIn (c) (hc : c ∈ n.parts) : c ∈ root.inside ∧ c.isComment = false :=
    ⟨Concrete.mem_inside_of_parts hn hc, Concrete.isComment_of_mem_parts hc⟩
  have hNameIn := hIn name (by simp [hParts])
  have hArgumentsIn := hIn arguments (by simp [hParts])
  have hOthers := (hRegular n hn).isSame_unique before [arguments] hParts hSame
  have hPaired := (hRegular n hn).paired
  have hFront := (hRegular n hn).front
  have hCalled := reads_called ((hRegular _ hNameIn.1).lexemes_word hWord hNameIn.2) hSame
    (hOthers arguments (by simp)) hArgumentsIn.1 hArguments (h arguments (by simp [hParts]))
  rw [hParts] at hPaired hFront ⊢
  refine (reads_before hCalled (fun b hb => hOthers b (List.mem_append_left _ hb))
    fun b hb => h b (by simp [hParts, hb])).mono fun es ts hes => ?_
  obtain ⟨fs, gs, us, vs, rfl, rfl, hFs, hTokens, hRun, hSome, hLevel, hComma⟩ := hes
  refine ⟨by rw [List.flatMap_append, hFs.tokens, hTokens], hFs.run.append hRun, by simp [hSome], fun _ => ?_,
    fun hSign => ?_, fun _ => ?_⟩
  · have hBefore : Concrete.openAfter? 0 (before.map Concrete.type) = some 0 := by
      rw [← openAfter_called hWord]
      simpa [hArguments] using hPaired
    rw [openAfter_append, hFs.level 0 0 hBefore, Option.bind_some, hLevel]
  · simp [hType, Concrete.listSigns] at hSign
  · cases fs with
    | nil => exact hComma
    | cons e fs =>
      cases before with
      | nil => exact absurd (hFs.nil_iff.mpr rfl) (by simp)
      | cons b bs =>
        refine hFs.front b (by simp) ?_
        simpa using hFront

-- ---------------------------------------------------------------------------
-- Elements
-- ---------------------------------------------------------------------------

/-- The elements of a node that is no name, no lexeme and no class type. -/
theorem elements_eq (hComment : n.isComment = false) (hName : (nameTypes.contains n.type && n.isName) = false)
    (hPlain : (n.isLeaf || atomicTypes.contains n.type) = false)
    (hGeneric : n.type = "generic_type" → n.isTypeTree? = some false) :
    elements source n =
      if typeDeclarations.contains n.type then do return [← typeDeclaration source n]
      else if n.type == "method_invocation" then invocation source (n.field? "name") n.parts
      else if Concrete.areBraced n.parts then do return [← block source n]
      else elementsOf source n.parts := by
  rw [elements, hComment, if_neg Bool.false_ne_true, hName, if_neg Bool.false_ne_true, hPlain,
    if_neg Bool.false_ne_true]
  by_cases hType : n.type = "generic_type"
  · simp only [hType, hGeneric hType, lift_some_bind, beq_self_eq_true, if_true, Bool.false_eq_true, if_false]
  · rw [if_neg (by simpa using hType)]

theorem elements_generic (hComment : n.isComment = false)
    (hName : (nameTypes.contains n.type && n.isName) = false)
    (hPlain : (n.isLeaf || atomicTypes.contains n.type) = false) (hType : n.type = "generic_type")
    (hTree : n.isTypeTree? = some true) : elements source n = do return [← typeTree source n] := by
  rw [elements, hComment, if_neg Bool.false_ne_true, hName, if_neg Bool.false_ne_true, hPlain,
    if_neg Bool.false_ne_true]
  simp only [hType, hTree, lift_some_bind, beq_self_eq_true, if_true]

/-- A node without a form of its own becomes what its parts become. -/
theorem Gathered.elements {es : List Node} {ts : List Token} (h : Gathered source root n.parts es ts)
    (hn : n.Regular) (hComment : n.isComment = false)
    (hPlain : (n.isLeaf || atomicTypes.contains n.type) = false) (hOther : n.type ∉ Concrete.listSigns) :
    Elements source root n es ts where
  tokens := h.tokens
  run := h.run
  ne_nil hNil := by
    have hBegins := hn.begins hComment
    rw [Concrete.lexemes_eq_parts hComment hPlain, h.nil_iff.mp hNil] at hBegins
    cases hBegins
  level _ := h.level 0 0 hn.paired
  sign hSign := absurd hSign hOther
  front _ := by
    have hFront := hn.front
    cases hParts : n.parts with
    | nil =>
      rw [h.nil_iff.mpr hParts]
      simp
    | cons c cs =>
      rw [hParts] at h hFront
      exact h.front c (by simp) (by simpa using hFront)

/-- What a node becomes among the elements of a run. -/
theorem reads_elements (hRegular : ∀ m ∈ root.inside, m.Regular) (hn : n ∈ root.inside)
    (hComment : n.isComment = false)
    (h : ∀ c ∈ n.parts, Converts source root c ∧ ∀ d ∈ c.parts, Converts source root d) :
    Reads source (elements source n) n.lexemes (Elements source root n) := by
  have hParts : ∀ c ∈ n.parts, Converts source root c := fun c hc => (h c hc).1
  have hNotSign (types : List String) (hType : n.type ∈ types)
    (hTypes : ∀ t ∈ types, t ∉ Concrete.listSigns) :
      n.type ∉ Concrete.listSigns := hTypes _ hType
  cases hName : nameTypes.contains n.type && n.isName with
  | true =>
    obtain ⟨hType, hIsName⟩ := Bool.and_eq_true_iff.mp hName
    rw [elements, hComment, if_neg Bool.false_ne_true, if_pos hName]
    refine (reads_nameTree hRegular hn hComment hType hIsName).bind_pure fun v ts hv => ?_
    exact hv.element (by decide) (by decide) (hNotSign nameTypes (List.contains_iff_mem.mp hType) (by decide))
  | false =>
    cases hPlain : n.isLeaf || atomicTypes.contains n.type with
    | true =>
      rw [elements, hComment, if_neg Bool.false_ne_true, if_neg (by simp only [hName]; decide), if_pos hPlain]
      refine (reads_tokenNode (Concrete.lexemes_of_isLeaf hComment hPlain)).bind_pure fun v ts hv => ?_
      obtain ⟨t, rfl, rfl, hMade⟩ := hv
      exact element_of_made (hRegular n hn) hMade
    | false =>
      -- a sign has no parts
      have hOther : n.type ∉ Concrete.listSigns := by
        intro hSign
        have hNamed := (hRegular n hn).isNamed_eq (of_mem_signs (show n.type ∈ signs by
          simp only [Concrete.listSigns, List.mem_cons, List.not_mem_nil, or_false] at hSign
          rcases hSign with hSign | hSign | hSign <;> simp [hSign, signs])).2
        rw [(hRegular n hn).sign hNamed] at hPlain
        cases hPlain
      by_cases hTree : n.type = "generic_type" ∧ n.isTypeTree? = some true
      · rw [elements_generic hComment hName hPlain hTree.1 hTree.2]
        refine (reads_typeTree hRegular hn hComment hParts hTree.2).bind_pure fun v ts hv => ?_
        exact hv.element (by decide) (by decide) (by simp [hTree.1, Concrete.listSigns])
      · have hEq : elements source n = _ := elements_eq hComment hName hPlain fun hType => by
          obtain ⟨b, hb⟩ := (hRegular n hn).exists_isTypeTree
          cases b with
          | true => exact absurd ⟨hType, hb⟩ hTree
          | false => exact hb
        have hLexemes := Concrete.lexemes_eq_parts hComment hPlain
        rw [hEq]
        split
        · rename_i hType
          refine (reads_typeDeclaration hRegular hn hComment h hType).bind_pure fun v ts hv => ?_
          exact hv.element (by decide) (by decide)
            (hNotSign typeDeclarations (List.contains_iff_mem.mp hType) (by decide))
        · split
          · rename_i hType
            rw [hLexemes]
            exact reads_invocation hRegular hn hParts (by simpa using hType)
          · split
            · rename_i hBraced
              have hBody : n.isBody = true := by
                rw [Bool.or_eq_false_iff] at hPlain
                rw [Concrete.isBody, hBraced, hPlain.2]
                rfl
              refine (reads_block hRegular hn hComment hParts hBody).bind_pure fun v ts hv => ?_
              exact hv.element (by decide) (by decide) hOther
            · rw [hLexemes]
              refine (reads_elementsOf fun c hc => (hParts c hc).elements).mono fun es ts hes => ?_
              exact hes.elements (hRegular n hn) hComment hPlain hOther

-- ---------------------------------------------------------------------------
-- All together
-- ---------------------------------------------------------------------------

/-- What a node becomes as a member. -/
theorem reads_member (hElements : Reads source (elements source n) n.lexemes (Elements source root n))
    (hDeclaration : typeDeclarations.contains n.type = true →
      Reads source (typeDeclaration source n) n.lexemes (Single source root [.typeDeclaration]))
    (hMethod : methodDeclarations.contains n.type = true →
      Reads source (method source n) n.lexemes (Single source root [.method])) :
    Reads source (member source n) n.lexemes (Single source root memberForms) := by
  have hWider {forms : List Form} (hForms : forms ⊆ memberForms) (v : Node) (ts : List Token)
      (hv : Single source root forms v ts) : Single source root memberForms v ts :=
    ⟨hv.tokens, hv.solid, hForms hv.form⟩
  rw [member]
  split
  · rename_i hType
    exact (hDeclaration hType).mono (hWider (by decide))
  · split
    · rename_i hType
      exact (hMethod hType).mono (hWider (by decide))
    · exact hElements.bind_pure fun es ts hes =>
        hWider (by decide) _ _ (single_statement hes.run hes.tokens hes.ne_nil)

/-- Each function of the conversion takes the lexemes of a node and makes of them what it should. -/
theorem converts (hRegular : ∀ m ∈ root.inside, m.Regular) (hn : n ∈ root.inside)
    (hComment : n.isComment = false) : Converts source root n := by
  induction hSize : n.size using Nat.strongRecOn generalizing n with
  | ind size ih =>
    have hEach : ∀ c ∈ n.parts, Converts source root c := fun c hc =>
      ih _ (hSize ▸ Concrete.size_lt_of_mem_parts hc) (Concrete.mem_inside_of_parts hn hc)
        (Concrete.isComment_of_mem_parts hc) rfl
    have hBelow : ∀ c ∈ n.parts, Converts source root c ∧ ∀ d ∈ c.parts, Converts source root d := by
      refine fun c hc => ⟨hEach c hc, fun d hd => ?_⟩
      exact ih _ (hSize ▸ (Concrete.size_lt_of_mem_parts hd).trans (Concrete.size_lt_of_mem_parts hc))
        (Concrete.mem_inside_of_parts (Concrete.mem_inside_of_parts hn hc) hd)
        (Concrete.isComment_of_mem_parts hd) rfl
    have hElements := reads_elements hRegular hn hComment hBelow
    have hDeclaration := reads_typeDeclaration hRegular hn hComment hBelow
    have hMethod := reads_method hRegular hn hComment hEach
    exact {
      elements := hElements
      declaration := hDeclaration
      method := hMethod
      classBody := reads_classBody hRegular hn hComment hBelow
      block := reads_block hRegular hn hComment hEach
      typeTree := reads_typeTree hRegular hn hComment hEach
      member := reads_member hElements hDeclaration hMethod }

end TreeBuilder

end SourceMigration
