import SourceMigration.Proofs.Parsing.Converted

/-!
# SourceMigration — between braces

What stands between braces becomes the statements of a block or the members of a class. A statement begins
with a named node and takes in the signs behind it, and the constants of an enumeration are its first
member.

## Results

* `reads_statements`, `reads_block`     — runs become statements, and statements a block.
* `reads_enumMembers`, `reads_classBody` — constants and members become the body of a class.
-/

namespace SourceMigration

open Concrete (nameTypes wordTypes atomicTypes_of_nameTypes)

namespace TreeBuilder

variable {source : List Char} {root n c : Concrete} {ns : List Concrete}

theorem fills_map_append {ss mid out : List Slot} {cs ds : List (Field × Node)}
    (h : Fills ss (cs.map tag) mid) (h' : Fills mid (ds.map tag) out) :
    Fills ss ((cs ++ ds).map tag) out := by
  rw [List.map_append]
  exact h.append h'

-- ---------------------------------------------------------------------------
-- Statements and blocks
-- ---------------------------------------------------------------------------

theorem single_statement {es : List Node} {ts : List Token} (hRun : Run (IsList source root) elementForms es)
    (hTokens : es.flatMap Node.tokens = ts) (hSome : es ≠ []) :
    Single source root [.statement] (statementOf es) ts where
  tokens := by rw [statementOf, Node.tokens, tokensOf_fileUnder, hTokens]
  solid := by
    refine solid_branch (by simp [NodeKind.form]) rfl (hRun.fills rfl) ?_ ?_ (solid_fileUnder hRun.solid _)
    · simpa [NodeKind.Intact, fileUnder] using hSome
    · rw [map_snd_fileUnder]
      exact hRun.argued
  form := by simp [statementOf, Node.form, NodeKind.form]

/-- Runs that become statements, with what they are made of. -/
structure Statements (source : List Char) (root : Concrete) (runs : List (List Node)) (ts : List Token) :
    Prop where
  tokens : runs.flatMap (·.flatMap Node.tokens) = ts
  runs : ∀ es ∈ runs, Run (IsList source root) elementForms es ∧ es ≠ []

theorem statements_nil (source : List Char) (root : Concrete) : Statements source root [] [] := ⟨rfl, by simp⟩

theorem reads_statements (h : ∀ c ∈ ns, Converts source root c) {done : List (List Node)} {us : List Token}
    (hDone : Statements source root done us) :
    Reads source (statements source ns done) (ns.flatMap Concrete.lexemes) fun runs ts =>
      Statements source root runs (us ++ ts) := by
  induction ns generalizing done us with
  | nil =>
    rw [statements]
    exact reads_pure (by rwa [List.append_nil])
  | cons c cs ih =>
    rw [statements, List.flatMap_cons]
    refine (h c List.mem_cons_self).elements.bind fun es ts hes => ?_
    have hRest {done' : List (List Node)} (hDone' : Statements source root done' (us ++ ts)) :
        Reads source (statements source cs done') (cs.flatMap Concrete.lexemes) fun runs vs =>
          Statements source root runs (us ++ (ts ++ vs)) :=
      (ih (fun d hd => h d (List.mem_cons_of_mem _ hd)) hDone').mono fun runs vs hRuns => by
        rwa [List.append_assoc] at hRuns
    split
    · refine hRest ⟨by simp [hDone.tokens, hes.tokens], ?_⟩
      exact List.forall_mem_append.mpr ⟨hDone.runs, by simpa using ⟨hes.run, hes.ne_nil⟩⟩
    · rename_i hJoins
      have hSome : done ≠ [] := by
        rintro rfl
        simp at hJoins
      obtain ⟨front, last, rfl⟩ : ∃ front last, done = front ++ [last] :=
        ⟨_, _, (List.dropLast_append_getLast hSome).symm⟩
      have hLast := hDone.runs last (by simp)
      rw [List.dropLast_concat, List.getLastD_concat]
      refine hRest ⟨?_, ?_⟩
      · rw [← hDone.tokens]
        simp [hes.tokens]
      · refine List.forall_mem_append.mpr ⟨fun es hEs => hDone.runs es (List.mem_append_left _ hEs), ?_⟩
        simpa using ⟨hLast.1.append hes.run, fun hNil => absurd hNil hLast.2⟩

/-- Braces with something between them. -/
theorem reads_braced {α : Type} {inside : Conversion α} {opening closing : Concrete}
    {P : α → List Token → Prop} {Q : Node → List Token → Prop} {make : Node → α → Node → Node}
    (hRegular : ∀ m ∈ root.inside, m.Regular) (hn : n ∈ root.inside)
    (hParts : n.parts = opening :: (n.inner ++ [closing])) (hOpen : opening.type = "\x7b")
    (hClose : closing.type = "\x7d") (hInside : Reads source inside (n.inner.flatMap Concrete.lexemes) P)
    (hMake : ∀ (o c : Token) v ts, o.isSign "\x7b" → c.isSign "\x7d" → P v ts →
      Q (make (.token o) v (.token c)) (o :: (ts ++ [c]))) :
    Reads source (do
      let o ← tokenNode source (← n.parts.head?)
      let v ← inside
      let c ← tokenNode source (← n.parts.getLast?)
      return make o v c) (n.parts.flatMap Concrete.lexemes) Q := by
  have hIn (c) (hc : c ∈ n.parts) : c.Regular ∧ c.isComment = false :=
    ⟨hRegular c (Concrete.mem_inside_of_parts hn hc), Concrete.isComment_of_mem_parts hc⟩
  have hFirst := hIn opening (by simp [hParts])
  have hLast := hIn closing (by rw [hParts]; simp)
  have hHead : n.parts.head? = some opening := by rw [hParts, List.head?_cons]
  have hEnd : n.parts.getLast? = some closing := by
    rw [hParts, ← List.cons_append, List.getLast?_concat]
  have hBrace {c : Concrete} {s : String} (hc : c.Regular ∧ c.isComment = false) (hType : c.type = s)
      (hSign : s ∈ signs) : Reads source (tokenNode source c) c.lexemes fun v ts =>
        ∃ t : Token, v = .token t ∧ ts = [t] ∧ t.isSign s := by
    refine (reads_tokenNode (lexemes_of_sign hc.1 (hType ▸ hSign) hc.2)).mono fun v ts hv => ?_
    obtain ⟨t, rfl, rfl, hMade⟩ := hv
    exact ⟨t, rfl, rfl, hType ▸ isSign_of_made hc.1 (hType ▸ hSign) hMade⟩
  rw [hHead, hEnd, hParts, List.flatMap_cons, List.flatMap_append, List.flatMap_singleton]
  simp only [lift_some_bind]
  refine (hBrace hFirst hOpen (by simp [signs])).bind fun o ts ho => ?_
  obtain ⟨o, rfl, rfl, ho⟩ := ho
  refine hInside.bind fun v us hv => ?_
  refine (hBrace hLast hClose (by simp [signs])).bind_pure fun c ws hc => ?_
  obtain ⟨c, rfl, rfl, hc⟩ := hc
  exact hMake o c v us ho hc hv

theorem lexemes_of_isBody (hComment : n.isComment = false) (hBody : n.isBody = true) :
    n.lexemes = n.parts.flatMap Concrete.lexemes := by
  obtain ⟨hBraced, hAtomic⟩ := Bool.and_eq_true_iff.mp hBody
  obtain ⟨opening, closing, hParts, -⟩ := Concrete.parts_of_areBraced hBraced
  exact hParts ▸ Concrete.lexemes_of_parts hComment hParts (by simp) (by simpa using hAtomic)

theorem inner_subset (n : Concrete) : n.inner ⊆ n.parts :=
  ((List.dropLast_sublist _).trans (List.tail_sublist _)).subset

/-- Braces around nodes that are no calls make a block or the body of a class. -/
theorem single_braced {k : NodeKind} {f : Field} {forms : List Form} {run : List Node} {ts : List Token}
    {o c : Token} (hk : k.form = .block ∨ k.form = .classBody)
    (hSlots : k.slots = [⟨.opening, .one, [.token]⟩, ⟨f, .many, forms⟩, ⟨.closing, .one, [.token]⟩])
    (hField : f ≠ .opening ∧ f ≠ .closing) (ho : o.isSign "\x7b") (hc : c.isSign "\x7d")
    (hEach : ∀ e ∈ run, e.Solid (IsList source root) ∧ e.form ∈ forms) (hCall : Form.call ∉ forms)
    (hTokens : run.flatMap Node.tokens = ts) :
    Single source root [k.form]
      (.branch k ((.opening, .token o) :: fileUnder f run ++ [(.closing, .token c)])) (o :: (ts ++ [c])) := by
  have hRun := run_of_forall hEach hCall
  refine ⟨?_, solid_branch ?_ ?_ ?_ ?_ ?_ ?_, by simp [Node.form]⟩
  · simp [Node.tokens, Node.tokensOf_eq, ← hTokens, fileUnder, List.flatMap_map]
  · rcases hk with hk | hk <;> simp [hk]
  · cases k <;> first | rfl | simp [NodeKind.form] at hk
  · rw [hSlots]
    exact fills_map_append (.single (by simp) (by simp [Node.form]) (hRun.fills (s := ⟨f, .many, forms⟩) rfl))
      (fills_one (s := ⟨.closing, .one, [.token]⟩) (e := .token c) (by simp [Node.form]) (by simp))
  · have hBraces :
        HasSign .opening "\x7b" ((.opening, .token o) :: fileUnder f run ++ [(.closing, .token c)]) ∧
        HasSign .closing "\x7d" ((.opening, .token o) :: fileUnder f run ++ [(.closing, .token c)]) :=
      ⟨⟨o, by simp [filed, fileUnder, hField.1], ho⟩, ⟨c, by simp [filed, fileUnder, hField.2], hc⟩⟩
    cases k <;> first | exact hBraces | simp [NodeKind.form] at hk
  · simp only [List.map_append, List.map_cons, List.map_nil, map_snd_fileUnder]
    refine argued_of_forms fun e he => ?_
    simp only [List.mem_append, List.mem_cons, List.not_mem_nil, or_false] at he
    rcases he with (rfl | he) | rfl
    · simp [Node.form]
    · exact fun hEq => hCall (hEq ▸ hRun.forms e he)
    · simp [Node.form]
  · intro d hd
    rcases List.mem_append.mp hd with hd | hd
    · rcases List.mem_cons.mp hd with rfl | hd
      · exact solid_token o
      · exact solid_fileUnder hRun.solid _ d hd
    · obtain rfl := List.mem_singleton.mp hd
      exact solid_token c

/-- What stands between braces becomes a block. -/
theorem reads_block (hRegular : ∀ m ∈ root.inside, m.Regular) (hn : n ∈ root.inside)
    (hComment : n.isComment = false) (h : ∀ c ∈ n.parts, Converts source root c) (hBody : n.isBody = true) :
    Reads source (block source n) n.lexemes (Single source root [.block]) := by
  obtain ⟨opening, closing, hParts, hOpen, hClose⟩ :=
    Concrete.parts_of_areBraced (Bool.and_eq_true_iff.mp hBody).1
  rw [lexemes_of_isBody hComment hBody, block]
  refine reads_braced hRegular hn hParts hOpen hClose
    (reads_statements (fun c hc => h c (inner_subset n hc)) (statements_nil source root)) ?_
  intro o c runs ts ho hc hRuns
  refine single_braced (k := .block) (Or.inl rfl) rfl (by decide) ho hc ?_ (by decide) ?_
  · intro s hs
    obtain ⟨es, hes, rfl⟩ := List.mem_map.mp hs
    have hSingle := single_statement (hRuns.runs es hes).1 rfl (hRuns.runs es hes).2
    exact ⟨hSingle.solid, hSingle.form⟩
  · rw [← List.nil_append ts, ← hRuns.tokens, List.flatMap_map]
    exact List.flatMap_congr fun es _ => by rw [statementOf, Node.tokens, tokensOf_fileUnder]

-- ---------------------------------------------------------------------------
-- Members
-- ---------------------------------------------------------------------------

/-- Nodes that stand one after another as members. -/
structure Members (source : List Char) (root : Concrete) (vs : List Node) (ts : List Token) : Prop where
  tokens : vs.flatMap Node.tokens = ts
  each : ∀ v ∈ vs, v.Solid (IsList source root) ∧ v.form ∈ memberForms

theorem members_nil : Members source root [] [] := ⟨rfl, by simp⟩

theorem Members.append {vs ws : List Node} {ts us : List Token} (h : Members source root vs ts)
    (h' : Members source root ws us) : Members source root (vs ++ ws) (ts ++ us) :=
  ⟨by rw [List.flatMap_append, h.tokens, h'.tokens], List.forall_mem_append.mpr ⟨h.each, h'.each⟩⟩

theorem Single.member {v : Node} {ts : List Token} {forms : List Form} (h : Single source root forms v ts)
    (hForms : forms ⊆ memberForms) : Members source root [v] ts :=
  ⟨by simp [h.tokens], by simpa using ⟨h.solid, hForms h.form⟩⟩

theorem reads_members (h : ∀ c ∈ ns, Converts source root c) :
    Reads source (members source ns) (ns.flatMap Concrete.lexemes) (Members source root) := by
  induction ns with
  | nil =>
    rw [members]
    exact reads_pure members_nil
  | cons c cs ih =>
    rw [members, List.flatMap_cons]
    refine (h c List.mem_cons_self).member.bind fun v ts hv =>
      (ih fun d hd => h d (List.mem_cons_of_mem _ hd)).bind_pure fun vs us hvs => ?_
    exact (hv.member (List.Subset.refl _)).append hvs

/-- Constants that have been gathered become one statement. -/
theorem members_constants {es : List Node} {ts : List Token} (hRun : Run (IsList source root) elementForms es)
    (hTokens : es.flatMap Node.tokens = ts) :
    Members source root (if es.isEmpty then [] else [statementOf es]) ts := by
  split
  · rename_i hNil
    obtain rfl := List.isEmpty_iff.mp hNil
    exact ⟨hTokens, by simp⟩
  · rename_i hSome
    exact (single_statement hRun hTokens (by simpa using hSome)).member (by simp [memberForms])

/-- The constants of an enumeration are its first member; what follows them are members like others. -/
theorem reads_enumMembers (hRegular : ∀ m ∈ root.inside, m.Regular)
    (hns : ∀ c ∈ ns, c ∈ root.inside ∧ c.isComment = false ∧ Converts source root c ∧
      ∀ d ∈ c.parts, Converts source root d)
    {constants : List Node} {us : List Token} (hRun : Run (IsList source root) elementForms constants)
    (hTokens : constants.flatMap Node.tokens = us) :
    Reads source (enumMembers source ns constants) (ns.flatMap Concrete.lexemes) fun vs ts =>
      Members source root vs (us ++ ts) := by
  induction ns generalizing constants us with
  | nil =>
    rw [enumMembers]
    exact reads_pure (by simpa using members_constants hRun hTokens)
  | cons c cs ih =>
    obtain ⟨hIn, hComment, hConverts, hInner⟩ := hns c List.mem_cons_self
    have ih {constants us} := @ih (fun d hd => hns d (List.mem_cons_of_mem _ hd)) constants us
    rw [enumMembers, List.flatMap_cons]
    split
    · refine hConverts.elements.bind fun es ts hes => ?_
      refine (ih (hRun.append hes.run)
        (by rw [List.flatMap_append, hTokens, hes.tokens])).mono fun vs ws hvs => ?_
      rwa [List.append_assoc] at hvs
    · rename_i hType
      have hType : c.type = "enum_body_declarations" := by simpa using hType
      obtain ⟨separator, rest, hParts, hSemicolon⟩ := (hRegular c hIn).enumBodyDeclarations hType
      have hSeparator : separator ∈ c.parts := by simp [hParts]
      have hLexemes : c.lexemes = separator.lexemes ++ rest.flatMap Concrete.lexemes := by
        rw [Concrete.lexemes_of_parts hComment hParts (by simp) (by rw [hType]; rfl), List.flatMap_cons]
      have hHead : c.parts.head? = some separator := by rw [hParts, List.head?_cons]
      have hTail : c.parts.tail = rest := by rw [hParts, List.tail_cons]
      rw [hLexemes, hHead, hTail, List.append_assoc]
      simp only [lift_some_bind]
      have hSign := lexemes_of_sign (hRegular _ (Concrete.mem_inside_of_parts hIn hSeparator))
        (by simp [hSemicolon, signs]) (Concrete.isComment_of_mem_parts hSeparator)
      refine (reads_tokenNode hSign).bind fun v ts hv => ?_
      obtain ⟨t, rfl, rfl, -⟩ := hv
      refine (reads_members fun d hd => hInner d (by simp [hParts, hd])).bind fun vs ws hvs => ?_
      refine (ih run_nil rfl).bind_pure fun vs' ws' hvs' => ?_
      have hConstants : Members source root [statementOf (constants ++ [.token t])] (us ++ [t]) :=
        (single_statement (hRun.append (run_single (solid_token t) (by simp [Node.form, elementForms])
          (by simp [Node.form]))) (by simp [hTokens, Node.tokens]) (by simp)).member (by simp [memberForms])
      simpa using (hConstants.append hvs).append hvs'

/-- Braces and the members between them become the body of a class. -/
theorem reads_classBody (hRegular : ∀ m ∈ root.inside, m.Regular) (hn : n ∈ root.inside)
    (hComment : n.isComment = false)
    (h : ∀ c ∈ n.parts, Converts source root c ∧ ∀ d ∈ c.parts, Converts source root d)
    (hBody : n.isBody = true) :
    Reads source (classBody source n) n.lexemes (Single source root [.classBody]) := by
  obtain ⟨opening, closing, hParts, hOpen, hClose⟩ :=
    Concrete.parts_of_areBraced (Bool.and_eq_true_iff.mp hBody).1
  have hInside : Reads source
      (if n.type == "enum_body" then enumMembers source n.inner [] else members source n.inner)
      (n.inner.flatMap Concrete.lexemes) (Members source root) := by
    split
    · refine (reads_enumMembers hRegular (fun c hc => ?_) run_nil rfl).mono fun vs ts hvs => hvs
      have hMem := inner_subset n hc
      exact ⟨Concrete.mem_inside_of_parts hn hMem, Concrete.isComment_of_mem_parts hMem, h c hMem⟩
    · exact reads_members fun c hc => (h c (inner_subset n hc)).1
  rw [lexemes_of_isBody hComment hBody, classBody]
  refine reads_braced hRegular hn hParts hOpen hClose hInside ?_
  intro o c vs ts ho hc hvs
  exact single_braced (k := .classBody) (Or.inr rfl) rfl (by decide) ho hc hvs.each (by decide) hvs.tokens

end TreeBuilder

end SourceMigration
