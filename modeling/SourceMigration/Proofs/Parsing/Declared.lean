import SourceMigration.Proofs.Parsing.Braced

/-!
# SourceMigration — declarations from their parts

The parts of a type declaration and of a method are filed under its fields one by one. Where the parts stand
as the grammar has them, they are filed in the order of the fields, and nothing is filed twice.

## Results

* `reads_filing`          — parts that are filed under one field after another.
* `reads_typeDeclaration` — a type declaration from its parts.
* `reads_method`          — a method from its parts.
-/

namespace SourceMigration

open Concrete (nameTypes wordTypes)

namespace TreeBuilder

variable {source : List Char} {root n c : Concrete} {ns : List Concrete}

-- ---------------------------------------------------------------------------
-- Filing
-- ---------------------------------------------------------------------------

/-- Parts that are added to the same field one after another add what they become together. -/
theorem reads_filing {P : Type} {step : P → Concrete → Conversion P} (add : P → List Node → P)
    (state : P → Prop)
    (hNil : ∀ p, add p [] = p) (hAdd : ∀ p es fs, add (add p es) fs = add p (es ++ fs))
    (hKeep : ∀ p es, state p → state (add p es))
    (hStep : ∀ p, state p → ∀ c ∈ ns, step p c = add p <$> elements source c)
    (h : ∀ c ∈ ns, Converts source root c) {p : P} (hp : state p) :
    Reads source (ns.foldlM step p) (ns.flatMap Concrete.lexemes) fun q ts =>
      ∃ es, q = add p es ∧ Gathered source root ns es ts := by
  induction ns generalizing p with
  | nil => exact reads_pure ⟨[], (hNil p).symm, gathered_nil⟩
  | cons c cs ih =>
    rw [List.foldlM_cons, List.flatMap_cons, hStep p hp c List.mem_cons_self]
    have hFirst := (h c List.mem_cons_self).elements.map (g := add p) (Q := fun q ts =>
      ∃ es, q = add p es ∧ Elements source root c es ts) fun es ts hes => ⟨es, rfl, hes⟩
    refine hFirst.bind fun q ts hq => ?_
    obtain ⟨es, rfl, hes⟩ := hq
    refine (ih (fun p hp d hd => hStep p hp d (List.mem_cons_of_mem _ hd))
      (fun d hd => h d (List.mem_cons_of_mem _ hd)) (hKeep p es hp)).mono fun q us hq => ?_
    obtain ⟨fs, rfl, hfs⟩ := hq
    exact ⟨es ++ fs, hAdd p es fs, hes.cons hfs⟩

/-- A token that is filed under a field. -/
theorem reads_tokenFiled {P : Type} (set : Node → P) (h : n.lexemes = [n]) :
    Reads source (set <$> tokenNode source n) n.lexemes fun q ts =>
      ∃ t : Token, q = set (.token t) ∧ ts = [t] ∧ Made n t :=
  (reads_tokenNode h).map fun v ts hv => by
    obtain ⟨t, rfl, ht⟩ := hv
    exact ⟨t, rfl, ht⟩

theorem declarationParts_eq (ns : List Concrete) (p : DeclarationParts) :
    declarationParts source n ns p = ns.foldlM (fun p c => declarationPart source n c p) p := by
  induction ns generalizing p with
  | nil =>
    rw [declarationParts]
    rfl
  | cons c cs ih =>
    rw [declarationParts, List.foldlM_cons]
    exact bind_congr ih

theorem not_atomic_of_declares {type : String} (h : type ∈ typeDeclarations ++ methodDeclarations) :
    atomicTypes.contains type = false := by
  revert type
  decide

-- ---------------------------------------------------------------------------
-- Type declarations
-- ---------------------------------------------------------------------------

section TypeDeclaration

variable {p : DeclarationParts}

theorem declarationPart_modifiers (hKind : p.kind = none) (hType : c.type = "modifiers") :
    declarationPart source n c p =
      (fun es => { p with modifiers := p.modifiers ++ es }) <$> elements source c := by
  rw [declarationPart, if_pos (by simp [hKind]), if_pos (by simp [hType]), map_eq_pure_bind]

theorem declarationPart_keyword (hKind : p.kind = none) (hType : c.type ≠ "modifiers") :
    declarationPart source n c p = (fun v => { p with kind := some v }) <$> tokenNode source c := by
  rw [declarationPart, if_pos (by simp [hKind]), if_neg (by simpa using hType), map_eq_pure_bind]

theorem declarationPart_name (hKind : p.kind.isSome) (hName : c.isSame (n.field? "name") = true) :
    declarationPart source n c p = (fun v => { p with name := some v }) <$> tokenNode source c := by
  rw [declarationPart, if_neg (by simpa using Option.isSome_iff_ne_none.mp hKind), if_pos hName,
    map_eq_pure_bind]

theorem declarationPart_body (hKind : p.kind.isSome) (hName : c.isSame (n.field? "name") = false)
    (hBody : c.isSame (n.field? "body") = true) :
    declarationPart source n c p = (fun v => { p with body := some v }) <$> classBody source c := by
  rw [declarationPart, if_neg (by simpa using Option.isSome_iff_ne_none.mp hKind),
    if_neg (by simp [hName]), if_pos hBody, map_eq_pure_bind]

/-- Parts between the name and the body. -/
structure Between (n c : Concrete) : Prop where
  notName : c.isSame (n.field? "name") = false
  notBody : c.isSame (n.field? "body") = false

theorem declarationPart_superclass (hKind : p.kind.isSome) (hBetween : Between n c)
    (hType : c.type = "superclass") (hExtends : isExtends? c = some true) :
    declarationPart source n c p = (fun v => { p with superclass := some v }) <$> extendsClause source c := by
  rw [declarationPart, if_neg (by simpa using Option.isSome_iff_ne_none.mp hKind),
    if_neg (by simp [hBetween.notName]), if_neg (by simp [hBetween.notBody])]
  simp only [hType, hExtends, lift_some_bind, beq_self_eq_true, if_true]
  rw [map_eq_pure_bind]

/-- Any other part between the name and the body. -/
theorem declarationPart_other (hKind : p.kind.isSome) (hBetween : Between n c)
    (hSuper : c.type = "superclass" → isExtends? c = some false) :
    declarationPart source n c p =
      if p.superclass.isNone && p.tail.isEmpty && headerTypes.contains c.type then
        (fun es => { p with header := p.header ++ es }) <$> elements source c
      else (fun es => { p with tail := p.tail ++ es }) <$> elements source c := by
  rw [declarationPart, if_neg (by simpa using Option.isSome_iff_ne_none.mp hKind),
    if_neg (by simp [hBetween.notName]), if_neg (by simp [hBetween.notBody])]
  simp only [map_eq_pure_bind]
  by_cases hType : c.type = "superclass"
  · simp only [hType, hSuper hType, lift_some_bind, beq_self_eq_true, if_true, Bool.false_eq_true, if_false]
  · rw [if_neg (by simpa using hType)]

theorem isExtends_of_regular (hRegular : ∀ m ∈ root.inside, m.Regular) (hc : c ∈ root.inside)
    (hType : c.type = "superclass") : ∃ b, isExtends? c = some b := by
  obtain ⟨keyword, type, hParts, -⟩ := (hRegular c hc).superclass hType
  have hMem : type ∈ c.parts := by simp [hParts]
  rw [isExtends?, hParts]
  exact (hRegular _ (Concrete.mem_inside_of_parts hc hMem)).exists_isTypeTree

/-- A supertype with its keyword becomes a clause. -/
theorem reads_extendsClause (hRegular : ∀ m ∈ root.inside, m.Regular) (hn : n ∈ root.inside)
    (hComment : n.isComment = false) (h : ∀ c ∈ n.parts, Converts source root c)
    (hType : n.type = "superclass")
    (hExtends : isExtends? n = some true) :
    Reads source (extendsClause source n) n.lexemes (Single source root [.extendsClause]) := by
  obtain ⟨keyword, type, hParts, hNamed⟩ := (hRegular n hn).superclass hType
  have hKeyword : keyword ∈ n.parts := by simp [hParts]
  have hTree : type.isTypeTree? = some true := by rwa [isExtends?, hParts] at hExtends
  rw [Concrete.lexemes_of_parts hComment hParts (by simp) (by rw [hType]; rfl), extendsClause]
  split
  · rename_i keyword' type' hParts'
    rw [hParts] at hParts'
    obtain ⟨rfl, hRest⟩ := List.cons.inj hParts'
    obtain ⟨rfl, -⟩ := List.cons.inj hRest
    simp only [List.flatMap_cons, List.flatMap_nil, List.append_nil]
    refine (reads_tokenNode ((hRegular _ (Concrete.mem_inside_of_parts hn hKeyword)).lexemes_sign hNamed
      (Concrete.isComment_of_mem_parts hKeyword))).bind fun k ts hk => ?_
    obtain ⟨k, rfl, rfl, -⟩ := hk
    refine ((h type (by simp [hParts])).typeTree hTree).bind_pure fun v us hv => ?_
    refine ⟨?_, solid_branch (by simp [NodeKind.form]) rfl ?_ trivial (argued_of_forms ?_) ?_,
      by simp [Node.form, NodeKind.form]⟩
    · simp [Node.tokens, Node.tokensOf_eq, hv.tokens]
    · exact .single (by simp) (by simp [Node.form]) (.single (by simp) hv.form (.refl _))
    · simpa using ⟨by simp [Node.form], hv.not_call (by decide)⟩
    · simpa using ⟨solid_token k, hv.solid⟩
  · rename_i hOther
    exact absurd hParts (hOther keyword type)

/-- The clauses of a type declaration behind its parameters. -/
structure Clauses (source : List Char) (root : Concrete) (superclass : Option Node) (tail : List Node)
    (ts : List Token) : Prop where
  tokens : superclass.toList.flatMap Node.tokens ++ tail.flatMap Node.tokens = ts
  superclass : ∀ v ∈ superclass, v.Solid (IsList source root) ∧ v.form = .extendsClause
  tail : Run (IsList source root) elementForms tail

/-- What stands behind the parameters is filed as the superclass or in the tail. -/
theorem reads_clauses (hRegular : ∀ m ∈ root.inside, m.Regular)
    (hns : ∀ c ∈ ns, c ∈ root.inside ∧ c.isComment = false ∧ Converts source root c ∧
      ∀ d ∈ c.parts, Converts source root d)
    (hBetween : ∀ c ∈ ns, Between n c) (hHead : ∀ c ∈ ns.head?, headerTypes.contains c.type = false)
    (hTail : ∀ c ∈ ns.tail, c.type ≠ "superclass") {p : DeclarationParts} (hKind : p.kind.isSome)
    (hNone : p.superclass = none ∧ p.tail = []) :
    Reads source (ns.foldlM (fun p c => declarationPart source n c p) p) (ns.flatMap Concrete.lexemes)
      fun q ts => ∃ superclass tail, q = { p with superclass, tail } ∧
        Clauses source root superclass tail ts := by
  cases ns with
  | nil =>
    refine reads_pure ⟨none, [], ?_, rfl, by simp, run_nil⟩
    rw [← hNone.1, ← hNone.2]
  | cons c cs =>
    obtain ⟨hIn, hComment, hConverts, hInner⟩ := hns c List.mem_cons_self
    have hOnly := hBetween c List.mem_cons_self
    -- behind the first clause everything goes into the tail
    have hRest {q : DeclarationParts} (hq : q.kind.isSome ∧ (q.superclass ≠ none ∨ q.tail ≠ [])) :
        Reads source (cs.foldlM (fun p c => declarationPart source n c p) q) (cs.flatMap Concrete.lexemes)
          fun q' us => ∃ fs, q' = { q with tail := q.tail ++ fs } ∧ Gathered source root cs fs us :=
      reads_filing (fun (q : DeclarationParts) es => { q with tail := q.tail ++ es })
        (fun q => q.kind.isSome ∧ (q.superclass ≠ none ∨ q.tail ≠ [])) (fun p => by simp)
        (fun p es fs => by simp)
        (fun p es hp => ⟨hp.1, hp.2.imp_right fun hSome => by simp [hSome]⟩)
        (fun p hp d hd => by
          rw [declarationPart_other hp.1 (hBetween d (List.mem_cons_of_mem _ hd))
            fun hType => absurd hType (hTail d hd)]
          rcases hp.2 with hSome | hSome <;> simp [hSome])
        (fun d hd => (hns d (List.mem_cons_of_mem _ hd)).2.2.1) hq
    rw [List.foldlM_cons, List.flatMap_cons]
    by_cases hExtends : c.type = "superclass" ∧ isExtends? c = some true
    · rw [declarationPart_superclass hKind hOnly hExtends.1 hExtends.2]
      have hFirst := (reads_extendsClause hRegular hIn hComment hInner hExtends.1 hExtends.2).map
        (g := fun v => { p with superclass := some v })
        (Q := fun q ts => ∃ v, q = { p with superclass := some v } ∧ Single source root [.extendsClause] v ts)
        fun v ts hv => ⟨v, rfl, hv⟩
      refine hFirst.bind fun q ts hq => ?_
      obtain ⟨v, rfl, hv⟩ := hq
      refine (hRest (q := { p with superclass := some v }) ⟨hKind, Or.inl (by simp)⟩).mono fun q us hq => ?_
      obtain ⟨fs, rfl, hfs⟩ := hq
      refine ⟨some v, fs, by simp [hNone.2], ?_, ?_, hfs.run⟩
      · simp [hv.tokens, hfs.tokens]
      · simpa using ⟨hv.solid, by simpa using hv.form⟩
    · have hStep : declarationPart source n c p = _ := declarationPart_other hKind hOnly fun hType => by
        obtain ⟨b, hb⟩ := isExtends_of_regular hRegular hIn hType
        cases b with
        | true => exact absurd ⟨hType, hb⟩ hExtends
        | false => exact hb
      rw [hStep, hHead c (by simp), Bool.and_false, if_neg Bool.false_ne_true]
      have hFirst := hConverts.elements.map (g := fun es => { p with tail := p.tail ++ es })
        (Q := fun q ts => ∃ es, q = { p with tail := es } ∧ Elements source root c es ts)
        fun es ts hes => ⟨es, by simp [hNone.2], hes⟩
      refine hFirst.bind fun q ts hq => ?_
      obtain ⟨es, rfl, hes⟩ := hq
      refine (hRest (q := { p with tail := es }) ⟨hKind, Or.inr hes.ne_nil⟩).mono fun q us hq => ?_
      obtain ⟨fs, rfl, hfs⟩ := hq
      refine ⟨none, es ++ fs, by simp [hNone.1], ?_, by simp, hes.run.append hfs.run⟩
      simp [hes.tokens, hfs.tokens]

/-- The parts of a type declaration make one. -/
theorem single_typeDeclaration {modifiers header tail : List Node} {superclass : Option Node}
    {kind name : Token} {body : Node} {ts us vs ws : List Token}
    (hModifiers : Run (IsList source root) elementForms modifiers ∧ modifiers.flatMap Node.tokens = ts)
    (hHeader : Run (IsList source root) elementForms header ∧ header.flatMap Node.tokens = us)
    (hClauses : Clauses source root superclass tail vs) (hBody : Single source root [.classBody] body ws) :
    Single source root [.typeDeclaration]
      (DeclarationParts.toNode ⟨modifiers, some (.token kind), some (.token name), header, superclass, tail,
        some body⟩) (ts ++ kind :: name :: (us ++ vs ++ ws)) := by
  have hToken (t : Token) : (Node.token t).form ∈ [Form.token] := by simp [Node.form]
  refine ⟨?_, solid_branch (by simp [NodeKind.form]) rfl ?_ trivial ?_ ?_,
    by simp [DeclarationParts.toNode, Node.form, NodeKind.form]⟩
  · simp only [DeclarationParts.toNode, Node.tokens, tokensOf_append, tokensOf_fileUnder, hModifiers.2,
      hHeader.2, ← hClauses.tokens, Option.toList_some, List.flatMap_singleton, hBody.tokens]
    simp
  · refine fills_map_append (fills_map_append (fills_map_append (fills_map_append (fills_map_append
      (fills_map_append (hModifiers.1.fills (s := ⟨.modifiers, _, _⟩) rfl)
        (fills_one (s := ⟨.kind, _, _⟩) (hToken kind) (by simp)))
        (fills_one (s := ⟨.name, _, _⟩) (hToken name) (by simp)))
        (hHeader.1.fills (s := ⟨.header, _, _⟩) rfl))
        (fills_optional (s := ⟨.superclass, _, _⟩) (fun e he => ?_) rfl))
        (hClauses.tail.fills (s := ⟨.tail, _, _⟩) rfl))
        (fills_one (s := ⟨.body, _, _⟩) hBody.form (by simp))
    simp [(hClauses.superclass e he).2]
  · have hSuper : Argued (IsList source root) superclass.toList := by
      refine argued_of_forms fun e he => ?_
      rw [(hClauses.superclass e (by simpa using he)).2]
      simp
    simp only [List.map_append, map_snd_fileUnder]
    exact (((((hModifiers.1.argued.append (argued_of_forms (by simp [Node.form]))).append
      (argued_of_forms (by simp [Node.form]))).append hHeader.1.argued).append hSuper).append
      hClauses.tail.argued).append (argued_of_forms (by simpa using hBody.not_call (by decide)))
  · simp only [List.forall_mem_append]
    refine ⟨⟨⟨⟨⟨⟨?_, ?_⟩, ?_⟩, ?_⟩, ?_⟩, ?_⟩, ?_⟩ <;> refine solid_fileUnder ?_ _
    · exact hModifiers.1.solid
    · simpa using solid_token kind
    · simpa using solid_token name
    · exact hHeader.1.solid
    · exact fun e he => (hClauses.superclass e (by simpa using he)).1
    · exact hClauses.tail.solid
    · simpa using hBody.solid

/-- A class, interface, enumeration, record or annotation type becomes a type declaration. -/
theorem reads_typeDeclaration (hRegular : ∀ m ∈ root.inside, m.Regular) (hn : n ∈ root.inside)
    (hComment : n.isComment = false)
    (h : ∀ c ∈ n.parts, Converts source root c ∧ ∀ d ∈ c.parts, Converts source root d)
    (hType : typeDeclarations.contains n.type = true) :
    Reads source (typeDeclaration source n) n.lexemes (Single source root [.typeDeclaration]) := by
  have hDeclares := hRegular n hn
  obtain ⟨modifiers, keyword, name, headers, others, body, hParts, hModifiers, hKeyword, hNamed, hName, hWord,
    hHeaders, hFirst, hOthers, hBody, hBraces⟩ := hDeclares.declaration hType
  have hIn (c) (hc : c ∈ n.parts) : c ∈ root.inside ∧ c.isComment = false :=
    ⟨Concrete.mem_inside_of_parts hn hc, Concrete.isComment_of_mem_parts hc⟩
  have hKeywordIn := hIn keyword (by simp [hParts])
  have hNameIn := hIn name (by simp [hParts])
  have hBodyIn := hIn body (by simp [hParts])
  -- the parts between the name and the body are neither of them
  have hNotName : ∀ c ∈ headers ++ others ++ [body], c.isSame (n.field? "name") = false := fun c hc =>
    hDeclares.isSame_unique (modifiers ++ [keyword]) (headers ++ others ++ [body]) (by simp [hParts]) hName c
      (List.mem_append_right _ hc)
  have hNotBody := hDeclares.isSame_unique (modifiers ++ keyword :: name :: (headers ++ others)) []
    (by simp [hParts]) hBody
  have hBetween : ∀ c ∈ headers ++ others, Between n c := fun c hc =>
    ⟨hNotName c (List.mem_append_left _ hc), hNotBody c (by simp [List.mem_append.mp hc])⟩
  have hAtomic := not_atomic_of_declares (List.mem_append_left _ (List.contains_iff_mem.mp hType))
  rw [Concrete.lexemes_of_parts hComment hParts (by simp) hAtomic, typeDeclaration, declarationParts_eq,
    hParts]
  refine Reads.bind_pure (P := fun p ts => Single source root [.typeDeclaration] p.toNode ts)
    ?_ fun p ts hp => hp
  rw [List.foldlM_append, List.flatMap_append]
  refine (reads_filing (fun (p : DeclarationParts) es => { p with modifiers := p.modifiers ++ es })
    (fun p => p.kind = none) (fun p => by simp) (fun p es fs => by simp) (fun p es hp => hp)
    (fun p hp c hc => declarationPart_modifiers hp (hModifiers c hc))
    (fun c hc => (h c (by simp [hParts, hc])).1) rfl).bind fun p ts hp => ?_
  obtain ⟨ms, rfl, hms⟩ := hp
  rw [List.foldlM_cons, List.flatMap_cons, declarationPart_keyword rfl hKeyword]
  refine (reads_tokenFiled _
    ((hRegular _ hKeywordIn.1).lexemes_sign hNamed hKeywordIn.2)).bind fun p us hp => ?_
  obtain ⟨k, rfl, rfl, -⟩ := hp
  rw [List.foldlM_cons, List.flatMap_cons, declarationPart_name rfl hName]
  refine (reads_tokenFiled _ ((hRegular _ hNameIn.1).lexemes_word hWord hNameIn.2)).bind fun p us hp => ?_
  obtain ⟨m, rfl, rfl, -⟩ := hp
  rw [List.foldlM_append, List.foldlM_append, List.flatMap_append, List.flatMap_append, bind_assoc,
    List.append_assoc]
  refine (reads_filing (fun (p : DeclarationParts) es => { p with header := p.header ++ es })
    (fun p => p.kind.isSome ∧ p.superclass = none ∧ p.tail = []) (fun p => by simp) (fun p es fs => by simp)
    (fun p es hp => hp) (fun p hp c hc => ?_) (fun c hc => (h c (by simp [hParts, hc])).1)
    ⟨rfl, rfl, rfl⟩).bind fun p us hp => ?_
  · rw [declarationPart_other hp.1 (hBetween c (List.mem_append_left _ hc)) fun hType => by
      have hHeader := hHeaders c hc
      simp [hType, headerTypes] at hHeader]
    rw [if_pos (by simp [hp.2.1, hp.2.2, List.contains_iff_mem.mp (hHeaders c hc)])]
  obtain ⟨hs, rfl, hhs⟩ := hp
  refine (reads_clauses hRegular (fun c hc => ?_) (fun c hc => hBetween c (List.mem_append_right _ hc)) hFirst
    hOthers rfl ⟨rfl, rfl⟩).bind fun p vs hp => ?_
  · have hMem : c ∈ n.parts := by simp [hParts, hc]
    exact ⟨(hIn c hMem).1, (hIn c hMem).2, h c hMem⟩
  obtain ⟨superclass, tail, rfl, hClauses⟩ := hp
  rw [List.foldlM_cons, List.flatMap_singleton, declarationPart_body rfl (hNotName body (by simp)) hBody]
  refine Reads.bind_pure ?_ fun p ts hp => hp
  refine ((h body (by simp [hParts])).1.classBody hBraces).map fun v ws hv => ?_
  simpa using single_typeDeclaration ⟨hms.run, hms.tokens⟩ ⟨hhs.run, hhs.tokens⟩ hClauses hv

end TypeDeclaration

-- ---------------------------------------------------------------------------
-- Methods
-- ---------------------------------------------------------------------------

theorem methodParts_eq (ns : List Concrete) (last : Concrete) (p : MethodParts) :
    methodParts source n (ns ++ [last]) p =
      ns.foldlM (fun p c => methodPart source n c false p) p >>= methodPart source n last true := by
  induction ns generalizing p with
  | nil =>
    rw [List.nil_append, methodParts, List.foldlM_nil, pure_bind, List.isEmpty_nil]
    conv_lhs =>
      rhs
      ext p
      rw [methodParts]
    exact bind_pure _
  | cons c cs ih =>
    have hMore : (cs ++ [last]).isEmpty = false := by simp
    rw [List.cons_append, methodParts, List.foldlM_cons, bind_assoc, hMore]
    exact bind_congr ih

section Method

variable {p : MethodParts} {isLast : Bool}

theorem methodPart_before (hName : p.name = none) (hOther : c.isSame (n.field? "name") = false) :
    methodPart source n c isLast p =
      (fun es => { p with modifiers := p.modifiers ++ es }) <$> elements source c := by
  rw [methodPart, if_pos (by simp [hName]), if_neg (by simp [hOther]), map_eq_pure_bind]

theorem methodPart_name (hName : p.name = none) (hSame : c.isSame (n.field? "name") = true) :
    methodPart source n c isLast p = (fun v => { p with name := some v }) <$> tokenNode source c := by
  rw [methodPart, if_pos (by simp [hName]), if_pos hSame, map_eq_pure_bind]

theorem methodPart_body (hName : p.name.isSome) (hSame : c.isSame (n.field? "body") = true) :
    methodPart source n c isLast p = (fun v => { p with body := some v }) <$> block source c := by
  rw [methodPart, if_neg (by simpa using Option.isSome_iff_ne_none.mp hName), if_pos hSame, map_eq_pure_bind]

theorem methodPart_parameters (hName : p.name.isSome) (hBody : c.isSame (n.field? "body") = false)
    (hParameters : isParameters n p c = true) :
    methodPart source n c isLast p =
      (fun es => { p with parameters := p.parameters ++ es }) <$> elements source c := by
  rw [methodPart, if_neg (by simpa using Option.isSome_iff_ne_none.mp hName), if_neg (by simp [hBody]),
    if_pos hParameters, map_eq_pure_bind]

theorem methodPart_terminator (hName : p.name.isSome) (hBody : c.isSame (n.field? "body") = false)
    (hParameters : isParameters n p c = false) (hType : c.type = ";") :
    methodPart source n c true p = (fun v => { p with terminator := some v }) <$> tokenNode source c := by
  rw [methodPart, if_neg (by simpa using Option.isSome_iff_ne_none.mp hName), if_neg (by simp [hBody]),
    if_neg (by simp [hParameters]), if_pos (by simp [hType]), map_eq_pure_bind]

theorem methodPart_tail (hName : p.name.isSome) (hBody : c.isSame (n.field? "body") = false)
    (hParameters : isParameters n p c = false) :
    methodPart source n c false p = (fun es => { p with tail := p.tail ++ es }) <$> elements source c := by
  rw [methodPart, if_neg (by simpa using Option.isSome_iff_ne_none.mp hName), if_neg (by simp [hBody]),
    if_neg (by simp [hParameters]), if_neg (by simp), map_eq_pure_bind]

/-- What stands behind the name of a method: parameters, and behind them a tail. -/
structure Signature (source : List Char) (root : Concrete) (parameters tail : List Node) (ts : List Token) :
    Prop where
  tokens : parameters.flatMap Node.tokens ++ tail.flatMap Node.tokens = ts
  parameters : Run (IsList source root) elementForms parameters
  tail : Run (IsList source root) elementForms tail

/-- Signs of the parameters come first. Behind the first part that belongs to the tail, everything does. -/
theorem reads_signature (h : ∀ c ∈ ns, Converts source root c)
    (hBody : ∀ c ∈ ns, c.isSame (n.field? "body") = false)
    (hField : ∀ c ∈ ns, c.isSame (n.field? "parameters") = false) {p : MethodParts} (hName : p.name.isSome) :
    Reads source (ns.foldlM (fun p c => methodPart source n c false p) p) (ns.flatMap Concrete.lexemes)
      fun q ts => ∃ parameters tail,
        q = { p with parameters := p.parameters ++ parameters, tail := p.tail ++ tail } ∧
          Signature source root parameters tail ts ∧ (p.tail ≠ [] → parameters = []) := by
  induction ns generalizing p with
  | nil => exact reads_pure ⟨[], [], by simp, ⟨rfl, run_nil, run_nil⟩, fun _ => rfl⟩
  | cons c cs ih =>
    have hOnly := hBody c List.mem_cons_self
    have ih {p : MethodParts} (hName : p.name.isSome) :=
      ih (fun d hd => h d (List.mem_cons_of_mem _ hd)) (fun d hd => hBody d (List.mem_cons_of_mem _ hd))
        (fun d hd => hField d (List.mem_cons_of_mem _ hd)) (p := p) hName
    have hElements := (h c List.mem_cons_self).elements
    rw [List.foldlM_cons, List.flatMap_cons]
    cases hParameters : isParameters n p c with
    | true =>
      have hNone : p.tail = [] := by
        have := hParameters
        simp only [isParameters, hField c List.mem_cons_self, Bool.false_or, Bool.and_eq_true] at this
        simpa using this.1.2
      rw [methodPart_parameters hName hOnly hParameters]
      refine (hElements.map (Q := fun q ts => ∃ es, q = { p with parameters := p.parameters ++ es } ∧
        Elements source root c es ts) fun es ts hes => ⟨es, rfl, hes⟩).bind fun q ts hq => ?_
      obtain ⟨es, rfl, hes⟩ := hq
      refine (ih (p := { p with parameters := p.parameters ++ es }) hName).mono fun q us hq => ?_
      obtain ⟨ps, tl, rfl, hSignature, -⟩ := hq
      refine ⟨es ++ ps, tl, by simp, ⟨?_, hes.run.append hSignature.parameters, hSignature.tail⟩,
        fun hSome => absurd hNone hSome⟩
      rw [List.flatMap_append, hes.tokens, List.append_assoc, hSignature.tokens]
    | false =>
      rw [methodPart_tail hName hOnly hParameters]
      refine (hElements.map (Q := fun q ts => ∃ es, q = { p with tail := p.tail ++ es } ∧
        Elements source root c es ts) fun es ts hes => ⟨es, rfl, hes⟩).bind fun q ts hq => ?_
      obtain ⟨es, rfl, hes⟩ := hq
      refine (ih (p := { p with tail := p.tail ++ es }) hName).mono fun q us hq => ?_
      obtain ⟨ps, tl, rfl, hSignature, hNil⟩ := hq
      obtain rfl := hNil (by simp [hes.ne_nil])
      refine ⟨[], es ++ tl, by simp, ⟨?_, run_nil, hes.run.append hSignature.tail⟩, fun _ => rfl⟩
      rw [List.flatMap_nil, List.nil_append, List.flatMap_append, hes.tokens, ← hSignature.tokens]
      rfl

/-- The end of a method: a body, or a sign instead of it. -/
inductive MethodEnd (source : List Char) (root : Concrete) :
    Option Node → Option Node → List Token → Prop where
  | body {v : Node} {ts : List Token} (h : Single source root [.block] v ts) :
      MethodEnd source root (some v) none ts
  | terminator (t : Token) : MethodEnd source root none (some (.token t)) [t]

/-- The parts of a method make one. -/
theorem single_method {modifiers parameters tail : List Node} {body terminator : Option Node} {name : Token}
    {ts us vs : List Token}
    (hModifiers : Run (IsList source root) elementForms modifiers ∧ modifiers.flatMap Node.tokens = ts)
    (hSignature : Signature source root parameters tail us)
    (hEnd : MethodEnd source root body terminator vs) :
    Single source root [.method]
      (MethodParts.toNode ⟨modifiers, some (.token name), parameters, tail, body, terminator⟩)
      (ts ++ name :: (us ++ vs)) := by
  have hBody : ∀ v ∈ body, v.Solid (IsList source root) ∧ v.form = .block := by
    cases hEnd with
    | body h => simpa using ⟨h.solid, by simpa using h.form⟩
    | terminator t => simp
  have hTerminator : ∀ v ∈ terminator, ∃ t, v = .token t := by
    cases hEnd <;> simp
  have hTokens : body.toList.flatMap Node.tokens ++ terminator.toList.flatMap Node.tokens = vs := by
    cases hEnd with
    | body h => simp [h.tokens]
    | terminator t => simp [Node.tokens]
  refine ⟨?_, solid_branch (by simp [NodeKind.form]) rfl ?_ ?_ ?_ ?_,
    by simp [MethodParts.toNode, Node.form, NodeKind.form]⟩
  · simp only [MethodParts.toNode, Node.tokens, tokensOf_append, tokensOf_fileUnder, hModifiers.2,
      ← hSignature.tokens, ← hTokens, Option.toList_some, List.flatMap_singleton]
    simp
  · refine fills_map_append (fills_map_append (fills_map_append (fills_map_append (fills_map_append
      (hModifiers.1.fills (s := ⟨.modifiers, _, _⟩) rfl)
      (fills_one (s := ⟨.name, _, _⟩) (by simp [Node.form]) (by simp)))
      (hSignature.parameters.fills (s := ⟨.parameters, _, _⟩) rfl))
      (hSignature.tail.fills (s := ⟨.tail, _, _⟩) rfl))
      (fills_optional (s := ⟨.body, _, _⟩) (fun v hv => by simp [(hBody v hv).2]) rfl))
      (fills_optional (s := ⟨.terminator, _, _⟩) (fun v hv => ?_) rfl)
    obtain ⟨t, rfl⟩ := hTerminator v hv
    simp [Node.form]
  · simp only [NodeKind.Intact, filed_append, filed_fileUnder]
    cases hEnd <;> simp
  · simp only [List.map_append, map_snd_fileUnder]
    refine ((((hModifiers.1.argued.append (argued_of_forms (by simp [Node.form]))).append
      hSignature.parameters.argued).append hSignature.tail.argued).append (argued_of_forms ?_)).append
      (argued_of_forms ?_)
    · intro v hv
      simp [(hBody v (by simpa using hv)).2]
    · intro v hv
      obtain ⟨t, rfl⟩ := hTerminator v (by simpa using hv)
      simp [Node.form]
  · simp only [List.forall_mem_append]
    refine ⟨⟨⟨⟨⟨?_, ?_⟩, ?_⟩, ?_⟩, ?_⟩, ?_⟩ <;> refine solid_fileUnder ?_ _
    · exact hModifiers.1.solid
    · simpa using solid_token name
    · exact hSignature.parameters.solid
    · exact hSignature.tail.solid
    · exact fun v hv => (hBody v (by simpa using hv)).1
    · intro v hv
      obtain ⟨t, rfl⟩ := hTerminator v (by simpa using hv)
      exact solid_token t

/-- What stands between the name and the end of a method. -/
theorem reads_rest {rest : List Concrete} (h : ∀ c ∈ rest, Converts source root c)
    (hBody : ∀ c ∈ rest, c.isSame (n.field? "body") = false)
    (hField : n.field? "parameters" = none ∨ ∃ first more, rest = first :: more ∧
      first.isSame (n.field? "parameters") = true ∧ ∀ c ∈ more, c.isSame (n.field? "parameters") = false)
    {p : MethodParts} (hName : p.name.isSome) (hFresh : p.parameters = [] ∧ p.tail = []) :
    Reads source (rest.foldlM (fun p c => methodPart source n c false p) p) (rest.flatMap Concrete.lexemes)
      fun q ts => ∃ parameters tail, q = { p with parameters, tail } ∧
        Signature source root parameters tail ts := by
  rcases hField with hNone | ⟨first, more, rfl, hFirst, hMore⟩
  · refine (reads_signature h hBody (fun c hc => by rw [hNone, Concrete.isSame_none])
      hName).mono fun q ts hq => ?_
    obtain ⟨ps, tl, rfl, hSignature, -⟩ := hq
    exact ⟨ps, tl, by simp [hFresh.1, hFresh.2], hSignature⟩
  · rw [List.foldlM_cons, List.flatMap_cons, methodPart_parameters hName (hBody first List.mem_cons_self)
      (by rw [isParameters, hFirst, Bool.true_or])]
    refine ((h first List.mem_cons_self).elements.map
      (Q := fun q ts => ∃ es, q = { p with parameters := p.parameters ++ es } ∧
      Elements source root first es ts) fun es ts hes => ⟨es, rfl, hes⟩).bind fun q ts hq => ?_
    obtain ⟨es, rfl, hes⟩ := hq
    refine (reads_signature (fun c hc => h c (List.mem_cons_of_mem _ hc))
      (fun c hc => hBody c (List.mem_cons_of_mem _ hc)) hMore
      (p := { p with parameters := p.parameters ++ es })
      hName).mono fun q us hq => ?_
    obtain ⟨ps, tl, rfl, hSignature, -⟩ := hq
    refine ⟨es ++ ps, tl, by simp [hFresh.1, hFresh.2], ?_, hes.run.append hSignature.parameters,
      hSignature.tail⟩
    rw [List.flatMap_append, hes.tokens, List.append_assoc, hSignature.tokens]

end Method

/-- A method, a constructor or an annotation element becomes a method. -/
theorem reads_method (hRegular : ∀ m ∈ root.inside, m.Regular) (hn : n ∈ root.inside)
    (hComment : n.isComment = false) (h : ∀ c ∈ n.parts, Converts source root c)
    (hType : methodDeclarations.contains n.type = true) :
    Reads source (method source n) n.lexemes (Single source root [.method]) := by
  have hDeclares := hRegular n hn
  obtain ⟨before, name, rest, last, hParts, hBefore, hName, hWord, hField, hEnd⟩ := hDeclares.method hType
  have hIn (c) (hc : c ∈ n.parts) : c ∈ root.inside ∧ c.isComment = false :=
    ⟨Concrete.mem_inside_of_parts hn hc, Concrete.isComment_of_mem_parts hc⟩
  have hNameIn := hIn name (by simp [hParts])
  have hLastIn := hIn last (by simp [hParts])
  have hBody : ∀ c ∈ rest, c.isSame (n.field? "body") = false := by
    rcases hEnd with ⟨hSame, -⟩ | ⟨hNone, -⟩
    · exact fun c hc => hDeclares.isSame_unique (before ++ name :: rest) []
        (by simp [hParts]) hSame c (by simp [hc])
    · exact fun c _ => by rw [hNone, Concrete.isSame_none]
  have hMore : ∀ first more, rest = first :: more → first.isSame (n.field? "parameters") = true →
      ∀ c ∈ more ++ [last], c.isSame (n.field? "parameters") = false := by
    rintro first more rfl hSame c hc
    exact hDeclares.isSame_unique (before ++ [name]) (more ++ [last]) (by simp [hParts]) hSame c
      (List.mem_append_right _ hc)
  have hAtomic := not_atomic_of_declares (List.mem_append_right _ (List.contains_iff_mem.mp hType))
  rw [Concrete.lexemes_of_parts hComment hParts (by simp) hAtomic, method, hParts,
    show before ++ name :: (rest ++ [last]) = (before ++ name :: rest) ++ [last] by simp, methodParts_eq]
  refine Reads.bind_pure (P := fun p ts => Single source root [.method] p.toNode ts) ?_ fun p ts hp => hp
  rw [List.foldlM_append, List.flatMap_append, List.flatMap_append, bind_assoc, List.append_assoc]
  refine (reads_filing (fun (p : MethodParts) es => { p with modifiers := p.modifiers ++ es })
    (fun p => p.name = none) (fun p => by simp) (fun p es fs => by simp) (fun p es hp => hp)
    (fun p hp c hc => methodPart_before hp (hBefore c hc)) (fun c hc => h c (by simp [hParts, hc]))
    rfl).bind fun p ts hp => ?_
  obtain ⟨ms, rfl, hms⟩ := hp
  rw [List.foldlM_cons, List.flatMap_cons, methodPart_name rfl hName, bind_assoc, List.append_assoc]
  refine (reads_tokenFiled _ ((hRegular _ hNameIn.1).lexemes_word hWord hNameIn.2)).bind fun p us hp => ?_
  obtain ⟨t, rfl, rfl, -⟩ := hp
  refine (reads_rest (fun c hc => h c (by simp [hParts, hc])) hBody (hField.imp_right ?_) rfl
    ⟨rfl, rfl⟩).bind fun p us hp => ?_
  · rintro ⟨first, more, hRest, hSame⟩
    exact ⟨first, more, hRest, hSame, fun c hc => hMore first more hRest hSame c (List.mem_append_left _ hc)⟩
  obtain ⟨ps, tl, rfl, hSignature⟩ := hp
  rw [List.flatMap_singleton]
  rcases hEnd with ⟨hSame, hBraces⟩ | ⟨hNone, hSemicolon⟩
  · rw [methodPart_body rfl hSame]
    refine ((h last (by simp [hParts])).block hBraces).map fun v vs hv => ?_
    simpa using single_method ⟨hms.run, hms.tokens⟩ hSignature (.body hv)
  · have hNoParameters : ∀ p : MethodParts, isParameters n p last = false := by
      intro p
      have hSame : last.isSame (n.field? "parameters") = false := by
        rcases hField with hField | ⟨first, more, hRest, hSame⟩
        · rw [hField, Concrete.isSame_none]
        · exact hMore first more hRest hSame last (by simp)
      simp [isParameters, hSame, hSemicolon]
    rw [methodPart_terminator rfl (by rw [hNone, Concrete.isSame_none]) (hNoParameters _) hSemicolon]
    refine (reads_tokenNode (lexemes_of_sign (hRegular _ hLastIn.1) (by simp [hSemicolon, signs])
      hLastIn.2)).map fun v vs hv => ?_
    obtain ⟨u, rfl, rfl, -⟩ := hv
    simpa using single_method ⟨hms.run, hms.tokens⟩ hSignature (.terminator u)

end TreeBuilder

end SourceMigration
