import SourceMigration.Proofs.Parsing.Runs
import SourceMigration.Proofs.Parsing.Shapes
import SourceMigration.Proofs.Parsing.Taken

/-!
# SourceMigration — what a node becomes

Every function of the conversion takes the lexemes of the node that it is given, one after another, and
makes something solid of their tokens. The functions call one another for the parts of a node, so what each
of them makes is stated at once, as `Converts`; names and single tokens need no induction.

## Results

* `reads_nameTree`  — what a name becomes.
* `element_of_made` — what a sign, a word or a literal becomes among the elements of a statement.
-/

namespace SourceMigration

open Concrete (atomicTypes_of_nameTypes nameTypes wordTypes)

namespace TreeBuilder

/-- What a list of arguments of a text becomes. -/
def IsList (source : List Char) (root : Concrete) (list : List Node) : Prop :=
  ∃ n ∈ root.inside, n.type = "argument_list" ∧
    ∃ offset ts stop, Taken source offset n.lexemes ts stop ∧ elements source n offset = some (list, stop)

/-- What a node becomes among the elements of a run. -/
structure Elements (source : List Char) (root n : Concrete) (es : List Node) (ts : List Token) : Prop where
  tokens : es.flatMap Node.tokens = ts
  run : Run (IsList source root) elementForms es
  ne_nil : es ≠ []
  /-- It closes as many parentheses as it opens, unless it is one. -/
  level : ["(", ")"].contains n.type = false → openAfter? 0 es = some 0
  sign : n.type ∈ Concrete.listSigns → ∃ t : Token, es = [.token t] ∧ t.isSign n.type
  /-- It does not begin with a comma, unless it is one. -/
  front : n.type ≠ "," → ∀ e ∈ es.head?, e.isToken "," = false

/-- What becomes one node. -/
structure Single (source : List Char) (root : Concrete) (forms : List Form) (v : Node) (ts : List Token) :
    Prop where
  tokens : v.tokens = ts
  solid : v.Solid (IsList source root)
  form : v.form ∈ forms

/-- What the functions of the conversion make of a node. -/
structure Converts (source : List Char) (root n : Concrete) : Prop where
  elements : Reads source (elements source n) n.lexemes (Elements source root n)
  declaration : typeDeclarations.contains n.type = true →
    Reads source (typeDeclaration source n) n.lexemes (Single source root [.typeDeclaration])
  method : methodDeclarations.contains n.type = true →
    Reads source (method source n) n.lexemes (Single source root [.method])
  classBody : n.isBody = true → Reads source (classBody source n) n.lexemes (Single source root [.classBody])
  block : n.isBody = true → Reads source (block source n) n.lexemes (Single source root [.block])
  typeTree : n.isTypeTree? = some true →
    Reads source (typeTree source n) n.lexemes (Single source root [.name, .parameterized])
  member : Reads source (member source n) n.lexemes (Single source root memberForms)

variable {source : List Char} {root n c : Concrete} {ns : List Concrete}

-- ---------------------------------------------------------------------------
-- Signs
-- ---------------------------------------------------------------------------

/-- The signs that are looked for. -/
def signs : List String := ["(", ")", ",", ".", ";", "\x7b", "\x7d"]

theorem of_mem_signs {sign : String} (h : sign ∈ signs) :
    tokenKind sign sign.toList = .operator ∧
      sign.toList.head?.any (fun c => c.isAlpha || c == '_') = false := by
  revert sign
  decide +kernel

/-- The token of a sign is spelled like its type. -/
theorem isSign_of_made {t : Token} (hn : n.Regular) (hSign : n.type ∈ signs) (h : Made n t) :
    t.isSign n.type := by
  obtain ⟨hKind, hNoName⟩ := of_mem_signs hSign
  have hText := h.spells.sign (hn.isNamed_eq hNoName)
  refine ⟨?_, by simpa using congrArg String.ofList hText⟩
  rw [h.kind_eq, hText, hKind]

theorem lexemes_of_sign (hn : n.Regular) (hSign : n.type ∈ signs) (hComment : n.isComment = false) :
    n.lexemes = [n] :=
  hn.lexemes_sign (hn.isNamed_eq (of_mem_signs hSign).2) hComment

/-- The token of anything else is spelled like none of the signs of a list. -/
theorem not_sign_of_made {t : Token} (h : Made n t) (sign : String) (hSign : sign ∈ Concrete.listSigns)
    (hType : n.type ≠ sign) : t.spells sign = false := by
  have hNe : t.text ≠ sign := by
    rintro rfl
    cases hNamed : n.info.isNamed with
    | true => exact h.spells.rule hNamed (by simpa using hSign)
    | false => exact hType (by simpa using (congrArg String.ofList (h.spells.sign hNamed)).symm)
  simp [Token.spells, hNe]

theorem reads_tokenNode (h : n.lexemes = [n]) :
    Reads source (tokenNode source n) n.lexemes fun v ts => ∃ t, v = .token t ∧ ts = [t] ∧ Made n t := by
  rw [h]
  exact (reads_token n).map fun t ts ht => ⟨t, rfl, ht⟩

-- ---------------------------------------------------------------------------
-- Names
-- ---------------------------------------------------------------------------

theorem chain_snoc {ts : List Token} {dot t : Token} (h : Chain ts) (hDot : dot.isPoint)
    (ht : t.kind = .identifier) : Chain (ts ++ [dot, t]) := by
  obtain ⟨first, links, rfl, hFirst, hLinks⟩ := h
  refine ⟨first, links ++ [dot, t], rfl, hFirst, ?_⟩
  induction hLinks with
  | nil => exact .cons hDot ht .nil
  | cons hDot' ht' _ ih => exact .cons hDot' ht' ih

theorem kind_of_word {t : Token} (h : Made n t) (hWord : wordTypes.contains n.type = true) :
    t.kind = .identifier := by
  rw [h.kind_eq]
  simp only [wordTypes, List.contains_iff_mem, List.mem_cons, List.not_mem_nil, or_false] at hWord
  rcases hWord with hWord | hWord <;> simp [tokenKind, hWord]

/-- Nothing but an identifier becomes one. -/
theorem word_of_kind {t : Token} (h : Made n t) (hKind : t.kind = .identifier) :
    wordTypes.contains n.type = true := by
  have hKind := h.kind_eq.symm.trans hKind
  unfold tokenKind at hKind
  split at hKind
  · rename_i hWord
    simpa [wordTypes] using hWord
  · split_ifs at hKind

/-- A name is a chain of tokens. -/
theorem chain_of_isName (hRegular : ∀ m ∈ root.inside, m.Regular) (hn : n ∈ root.inside)
    (hComment : n.isComment = false) (hType : nameTypes.contains n.type = true) (hName : n.isName = true)
    {offset stop : Nat} {ts : List Token} (h : Taken source offset n.lexemes ts stop) : Chain ts := by
  induction hSize : n.size using Nat.strongRecOn generalizing n offset stop ts with
  | ind size ih =>
    cases hLeaf : n.isLeaf with
    | true =>
      rw [Concrete.lexemes_of_isLeaf hComment (by rw [hLeaf, Bool.true_or])] at h
      have hWord : wordTypes.contains n.type = true := by
        obtain ⟨i, cs⟩ := n
        have hNil : cs.isEmpty = true := hLeaf
        have hOther : Concrete.commentTypes.contains i.type = false := hComment
        rw [Concrete.isName, hOther, Bool.false_or, if_pos hNil] at hName
        simp only [nameTypes, Concrete.nameLeafTypes, wordTypes, List.contains_iff_mem, List.mem_cons,
          List.not_mem_nil, or_false, Concrete.type, Concrete.info] at hName hType ⊢
        rcases hName with hName | hName | hName
        · exact Or.inl hName
        · exact Or.inr hName
        · rw [hName] at hType
          simp at hType
      cases h with
      | cons _ hMade h =>
        cases h
        exact ⟨_, [], rfl, kind_of_word hMade hWord, .nil⟩
    | false =>
      obtain ⟨front, dot, word, hParts, hFront, hDot, hWord⟩ :=
        (hRegular n hn).dotted hType hName hLeaf
      have hMem : ∀ c ∈ [front, dot, word], c ∈ n.parts := fun c hc => hParts ▸ hc
      have hIn (c) (hc : c ∈ [front, dot, word]) : c ∈ root.inside ∧ c.isComment = false :=
        ⟨Concrete.mem_inside_of_parts hn (hMem c hc), Concrete.isComment_of_mem_parts (hMem c hc)⟩
      have hDotIn := hIn dot (by simp)
      have hWordIn := hIn word (by simp)
      rw [Concrete.lexemes_eq_parts hComment (by rw [hLeaf, atomicTypes_of_nameTypes hType]; rfl),
        hParts] at h
      simp only [List.flatMap_cons, List.flatMap_nil, List.append_nil,
        lexemes_of_sign (hRegular dot hDotIn.1) (by simp [hDot, signs]) hDotIn.2,
        (hRegular word hWordIn.1).lexemes_word hWord hWordIn.2] at h
      obtain ⟨us, vs, mid, rfl, hUs, hVs⟩ := h.append_inv
      cases hVs with
      | cons _ hMadeDot hVs =>
        cases hVs with
        | cons _ hMadeWord hVs =>
          cases hVs
          have hPoint := isSign_of_made (hRegular dot hDotIn.1) (by simp [hDot, signs]) hMadeDot
          rw [hDot] at hPoint
          have hFrontIn := hIn front (by simp)
          have hSmaller := hSize ▸ Concrete.size_lt_of_mem_parts (hMem front (by simp))
          have hChain := ih _ hSmaller hFrontIn.1 hFrontIn.2
            hFront (Concrete.isName_of_mem_parts hName hComment (hMem front (by simp))) hUs rfl
          exact chain_snoc hChain hPoint (kind_of_word hMadeWord hWord)

theorem reads_mapM_tokenNode (ns : List Concrete) :
    Reads source (ns.mapM (tokenNode source)) ns fun vs ts => vs = ts.map Node.token := by
  induction ns with
  | nil => exact reads_pure rfl
  | cons n ns ih =>
    rw [List.mapM_cons, ← List.singleton_append]
    have hFirst : Reads source (tokenNode source n) [n] fun v ts => ∃ t, v = Node.token t ∧ ts = [t] :=
      (reads_token n).map fun t ts ht => ⟨t, rfl, ht.1⟩
    refine hFirst.bind fun v us hv => ih.bind_pure fun vs ts hvs => ?_
    obtain ⟨t, rfl, rfl⟩ := hv
    rw [hvs]
    rfl

/-- A name of the text becomes a name. -/
theorem reads_nameTree (hRegular : ∀ m ∈ root.inside, m.Regular) (hn : n ∈ root.inside)
    (hComment : n.isComment = false) (hType : nameTypes.contains n.type = true) (hName : n.isName = true) :
    Reads source (nameTree source n) n.lexemes (Single source root [.name]) := by
  intro offset ts stop hTaken
  have hChain := chain_of_isName hRegular hn hComment hType hName hTaken
  have hReads : Reads source (nameTree source n) n.lexemes fun v ts => v = Node.nameOf none ts := by
    rw [nameTree, Concrete.leaves_of_isName hName]
    refine (reads_mapM_tokenNode n.lexemes).bind_pure fun vs ts hvs => ?_
    rw [hvs]
    simp [fileUnder, Node.nameOf, Function.comp_def]
  obtain ⟨v, hv, rfl⟩ := hReads offset ts stop hTaken
  exact ⟨_, hv, Node.tokens_nameOf none ts, solid_name hChain,
    by simp [Node.nameOf, Node.form, NodeKind.form]⟩

-- ---------------------------------------------------------------------------
-- Runs
-- ---------------------------------------------------------------------------

/-- What some nodes become, as one run. -/
structure Gathered (source : List Char) (root : Concrete) (ns : List Concrete) (es : List Node)
    (ts : List Token) : Prop where
  tokens : es.flatMap Node.tokens = ts
  run : Run (IsList source root) elementForms es
  nil_iff : es = [] ↔ ns = []
  level : ∀ depth depth', Concrete.openAfter? depth (ns.map Concrete.type) = some depth' →
    openAfter? depth es = some depth'
  front : ∀ n ∈ ns.head?, n.type ≠ "," → ∀ e ∈ es.head?, e.isToken "," = false

theorem gathered_nil : Gathered source root [] [] [] :=
  ⟨rfl, run_nil, by simp, fun _ _ h => h, by simp⟩

theorem spells_of_isSign {t : Token} {sign : String} (h : t.isSign sign) :
    (Node.token t).isToken sign = true := by
  simp [Node.isToken, Token.spells, h.1, h.2]

/-- What a node becomes stands before what further nodes become. -/
theorem Elements.cons {es fs : List Node} {ts us : List Token} (h : Elements source root n es ts)
    (h' : Gathered source root ns fs us) : Gathered source root (n :: ns) (es ++ fs) (ts ++ us) where
  tokens := by rw [List.flatMap_append, h.tokens, h'.tokens]
  run := h.run.append h'.run
  nil_iff := by simp [h.ne_nil]
  level depth depth' hTypes := by
    rw [openAfter_append]
    rw [List.map_cons, Concrete.openAfter?] at hTypes
    by_cases hSign : ["(", ")"].contains n.type = true
    · obtain ⟨t, rfl, ht⟩ := h.sign (by
        simp only [List.contains_iff_mem] at hSign
        exact List.mem_append_left [","] hSign)
      have hToken := spells_of_isSign ht
      split at hTypes
      · rename_i hOpen
        rw [hOpen] at hToken
        simpa [openAfter?, hToken] using h'.level _ _ hTypes
      · split at hTypes
        · rename_i hOpen hClose
          rw [hClose] at hToken
          split at hTypes
          · cases hTypes
          · rename_i hDepth
            simpa [openAfter?, hToken, Node.isToken_unique hToken (b := "(") (by decide), hDepth]
              using h'.level _ _ hTypes
        · rename_i hOpen hClose
          simp [hOpen, hClose] at hSign
    · rw [Bool.not_eq_true] at hSign
      have hOther : n.type ≠ "(" ∧ n.type ≠ ")" := by simpa using hSign
      rw [if_neg hOther.1, if_neg hOther.2] at hTypes
      have hSame := openAfter_add (h.level hSign) depth
      rw [Nat.zero_add] at hSame
      rw [hSame, Option.bind_some, h'.level _ _ hTypes]
  front m hm hComma := by
    obtain rfl : n = m := by simpa using hm
    obtain ⟨e, es', rfl⟩ := List.exists_cons_of_ne_nil h.ne_nil
    simpa using h.front hComma

theorem reads_elementsOf (h : ∀ c ∈ ns, Reads source (elements source c) c.lexemes (Elements source root c)) :
    Reads source (elementsOf source ns) (ns.flatMap Concrete.lexemes) (Gathered source root ns) := by
  induction ns with
  | nil =>
    rw [elementsOf]
    exact reads_pure gathered_nil
  | cons c cs ih =>
    rw [elementsOf, List.flatMap_cons]
    refine (h c List.mem_cons_self).bind fun es ts hes =>
      (ih fun d hd => h d (List.mem_cons_of_mem _ hd)).bind_pure fun fs us hfs => ?_
    exact hes.cons hfs

-- ---------------------------------------------------------------------------
-- Elements that are one node
-- ---------------------------------------------------------------------------

theorem Single.not_call {forms : List Form} {v : Node} {ts : List Token} (h : Single source root forms v ts)
    (hForms : Form.call ∉ forms) : v.form ≠ .call := fun hEq => hForms (hEq ▸ h.form)

/-- A node that is no sign and no call is an element. -/
theorem Single.element {forms : List Form} {v : Node} {ts : List Token} (h : Single source root forms v ts)
    (hForms : forms ⊆ elementForms) (hOther : Form.call ∉ forms ∧ Form.token ∉ forms)
    (hType : n.type ∉ Concrete.listSigns) : Elements source root n [v] ts := by
  have hNoToken (sign : String) : v.isToken sign = false := by
    cases v with
    | token t => exact absurd h.form hOther.2
    | branch k cs => rfl
  refine ⟨by simp [h.tokens], run_single h.solid (hForms h.form) (h.not_call hOther.1), by simp,
    fun _ => by simp [openAfter?, hNoToken], fun hSign => absurd hSign hType, fun _ => by simp [hNoToken]⟩

/-- A lexeme is an element. -/
theorem element_of_made {t : Token} (hn : n.Regular) (h : Made n t) :
    Elements source root n [.token t] [t] where
  tokens := by simp [Node.tokens]
  run := run_single (solid_token t) (by simp [Node.form, elementForms]) (by simp [Node.form])
  ne_nil := by simp
  level hSign := by
    have hOther : n.type ≠ "(" ∧ n.type ≠ ")" := by simpa using hSign
    have hOpen := not_sign_of_made h "(" (by simp [Concrete.listSigns]) hOther.1
    have hClose := not_sign_of_made h ")" (by simp [Concrete.listSigns]) hOther.2
    simp [openAfter?, Node.isToken, hOpen, hClose]
  sign hSign := by
    refine ⟨t, rfl, isSign_of_made hn ?_ h⟩
    simp only [Concrete.listSigns, List.mem_cons, List.not_mem_nil, or_false] at hSign
    rcases hSign with hType | hType | hType <;> simp [hType, signs]
  front hComma := by
    simpa [Node.isToken] using not_sign_of_made h "," (by simp [Concrete.listSigns]) hComma

end TreeBuilder

end SourceMigration
