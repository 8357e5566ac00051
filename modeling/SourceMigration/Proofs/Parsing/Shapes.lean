import Mathlib.Data.List.Nodup
import Mathlib.Data.List.TakeWhile
import SourceMigration.Proofs.Parsing.Laws

/-!
# SourceMigration — the shapes of nodes

What is known of a regular node tells what its parts are: which of them are signs, what a name is made of,
and in which order the parts of a declaration, a method, a package, an import or a list of arguments stand.

## Results

* `mem_inside_of_parts`   — what a node is made of is inside whatever the node is inside.
* `lexemes_eq_parts`      — the lexemes of a node are those of its parts.
* `Regular.declaration`, `Regular.method`, `Regular.package`, `Regular.import`, `Regular.arguments` — the
  parts of each in their order.
-/

namespace SourceMigration.Concrete

open TreeBuilder (atomicTypes typeDeclarations methodDeclarations headerTypes)

variable {n c root : Concrete}

-- ---------------------------------------------------------------------------
-- Nodes and lexemes
-- ---------------------------------------------------------------------------

theorem nodesOf_eq (cs : List (Option String × Concrete)) : nodesOf cs = cs.flatMap fun c => c.2.nodes := by
  induction cs with
  | nil => rfl
  | cons c cs ih => rw [nodesOf, ih, List.flatMap_cons]

theorem lexemesOf_eq (cs : List (Option String × Concrete)) :
    lexemesOf cs = cs.flatMap fun c => c.2.lexemes := by
  induction cs with
  | nil => rfl
  | cons c cs ih => rw [lexemesOf, ih, List.flatMap_cons]

theorem nodes_eq (n : Concrete) : n.nodes = n :: n.inside := by
  cases n
  rw [nodes]
  rfl

theorem mem_nodes_self (n : Concrete) : n ∈ n.nodes := by
  rw [nodes_eq]
  exact List.mem_cons_self

theorem inside_eq (n : Concrete) : n.inside = n.children.flatMap fun c => c.2.nodes := nodesOf_eq _

theorem nodes_subset {m : Concrete} (h : m ∈ n.nodes) : m.nodes ⊆ n.nodes := by
  induction n using Concrete.induct with
  | node i cs ih =>
    rw [nodes, nodesOf_eq] at h ⊢
    rcases List.mem_cons.mp h with rfl | h
    · rw [nodes, nodesOf_eq]
      exact List.Subset.refl _
    · obtain ⟨c, hc, hm⟩ := List.mem_flatMap.mp h
      intro x hx
      exact List.mem_cons_of_mem _ (List.mem_flatMap.mpr ⟨c, hc, ih c hc hm hx⟩)

theorem mem_children_of_parts (h : c ∈ n.parts) : ∃ f, (f, c) ∈ n.children := by
  obtain ⟨⟨f, m⟩, hMem, rfl⟩ := List.mem_map.mp (List.mem_filter.mp h).1
  exact ⟨f, hMem⟩

theorem mem_inside_of_children {f : Option String} (h : (f, c) ∈ n.children) : c ∈ n.inside := by
  rw [inside_eq]
  exact List.mem_flatMap.mpr ⟨_, h, c.mem_nodes_self⟩

/-- What a node is made of is inside the node. -/
theorem mem_inside (h : c ∈ n.parts) : c ∈ n.inside := by
  obtain ⟨f, hc⟩ := mem_children_of_parts h
  exact mem_inside_of_children hc

theorem mem_inside_trans (hn : n ∈ root.inside) (h : c ∈ n.inside) : c ∈ root.inside := by
  rw [inside_eq] at hn ⊢
  obtain ⟨d, hd, hn⟩ := List.mem_flatMap.mp hn
  have hc : c ∈ n.nodes := by
    rw [nodes_eq]
    exact List.mem_cons_of_mem _ h
  exact List.mem_flatMap.mpr ⟨d, hd, nodes_subset hn hc⟩

/-- What a node is made of is inside whatever the node is inside. -/
theorem mem_inside_of_parts (hn : n ∈ root.inside) (h : c ∈ n.parts) : c ∈ root.inside :=
  mem_inside_trans hn (mem_inside h)

theorem isComment_of_mem_parts (h : c ∈ n.parts) : c.isComment = false := by
  simpa using (List.mem_filter.mp h).2

theorem lexemes_eq (n : Concrete) :
    n.lexemes = if n.isComment then [] else if n.isLeaf || atomicTypes.contains n.type then [n]
      else n.children.flatMap fun c => c.2.lexemes := by
  cases n
  rw [lexemes, lexemesOf_eq]
  rfl

theorem lexemes_of_isComment (h : n.isComment = true) : n.lexemes = [] := by
  rw [lexemes_eq, if_pos h]

/-- A lexeme, or what is kept as one. -/
theorem lexemes_of_isLeaf (hComment : n.isComment = false)
    (hLeaf : (n.isLeaf || atomicTypes.contains n.type) = true) : n.lexemes = [n] := by
  rw [lexemes_eq, hComment, if_neg Bool.false_ne_true, if_pos hLeaf]

/-- The lexemes of any other node are those of its parts. -/
theorem lexemes_eq_parts (hComment : n.isComment = false)
    (hLeaf : (n.isLeaf || atomicTypes.contains n.type) = false) : n.lexemes = n.parts.flatMap lexemes := by
  rw [lexemes_eq, hComment, if_neg Bool.false_ne_true, hLeaf, if_neg Bool.false_ne_true, parts]
  induction n.children with
  | nil => rfl
  | cons c cs ih =>
    rw [List.flatMap_cons, List.map_cons, ih]
    cases hc : c.2.isComment with
    | true => rw [List.filter_cons_of_neg (by simp [hc]), lexemes_of_isComment hc, List.nil_append]
    | false => rw [List.filter_cons_of_pos (by simp [hc]), List.flatMap_cons]

theorem isLeaf_of_parts (h : n.parts ≠ []) : n.isLeaf = false := by
  obtain ⟨i, cs⟩ := n
  cases cs with
  | nil => exact absurd rfl h
  | cons c cs => rfl

theorem lexemes_of_parts {ns : List Concrete} (hComment : n.isComment = false) (hParts : n.parts = ns)
    (hSome : ns ≠ []) (hAtomic : atomicTypes.contains n.type = false) : n.lexemes = ns.flatMap lexemes := by
  rw [lexemes_eq_parts hComment (by rw [isLeaf_of_parts (hParts ▸ hSome), hAtomic]; rfl), hParts]

-- ---------------------------------------------------------------------------
-- Signs
-- ---------------------------------------------------------------------------

theorem Regular.isNamed_eq (h : n.Regular)
    (hType : n.type.toList.head?.any (fun c => c.isAlpha || c == '_') = false) : n.info.isNamed = false := by
  by_contra hNamed
  rw [h.named (by simpa using hNamed)] at hType
  cases hType

/-- A sign or a keyword is its own only lexeme. -/
theorem Regular.lexemes_sign (h : n.Regular) (hNamed : n.info.isNamed = false)
    (hComment : n.isComment = false) :
    n.lexemes = [n] :=
  lexemes_of_isLeaf hComment (by rw [h.sign hNamed, Bool.true_or])

theorem Regular.lexemes_word (h : n.Regular) (hWord : wordTypes.contains n.type = true)
    (hComment : n.isComment = false) : n.lexemes = [n] :=
  lexemes_of_isLeaf hComment (by rw [h.word hWord, Bool.true_or])

-- ---------------------------------------------------------------------------
-- One part among others
-- ---------------------------------------------------------------------------

theorem Regular.nodup_parts (h : n.Regular) : (n.parts.map (·.info.id)).Nodup := by
  have hSub : (n.parts.map (·.info.id)).Sublist ((n.children.map Prod.snd).map (·.info.id)) :=
    List.Sublist.map _ List.filter_sublist
  rw [List.map_map] at hSub
  exact h.distinct.sublist hSub

/-- What was found in a field is one part only. -/
theorem Regular.isSame_unique (h : n.Regular) (front back : List Concrete) {o : Option Concrete}
    (hParts : n.parts = front ++ c :: back) (hc : c.isSame o = true) :
    ∀ d ∈ front ++ back, d.isSame o = false := by
  have hNodup := h.nodup_parts
  rw [hParts] at hNodup
  obtain ⟨m, rfl, hm⟩ := (Option.any_eq_true _ _).mp hc
  intro d hd
  have hNe : d.info.id ≠ c.info.id := by
    intro hEq
    rw [List.map_append, List.map_cons, List.nodup_middle, ← List.map_append] at hNodup
    exact (List.nodup_cons.mp hNodup).1 (hEq ▸ List.mem_map_of_mem hd)
  rw [beq_iff_eq] at hm
  simpa [isSame, hm] using Ne.symm hNe

theorem isSame_none (c : Concrete) : c.isSame none = false := rfl

-- ---------------------------------------------------------------------------
-- Names
-- ---------------------------------------------------------------------------

theorem areNames_eq (cs : List (Option String × Concrete)) : areNames cs = cs.all fun c => c.2.isName := by
  induction cs with
  | nil => rfl
  | cons c cs ih => rw [areNames, ih, List.all_cons]

theorem leavesOf_eq (cs : List (Option String × Concrete)) :
    leavesOf cs = cs.flatMap fun c => c.2.leaves := by
  induction cs with
  | nil => rfl
  | cons c cs ih => rw [leavesOf, ih, List.flatMap_cons]

theorem atomicTypes_of_nameTypes {type : String} (h : nameTypes.contains type = true) :
    atomicTypes.contains type = false := by
  rw [List.contains_iff_mem] at h
  revert type
  decide

/-- The leaves of a name are its lexemes. -/
theorem leaves_of_isName (h : n.isName = true) : n.leaves = n.lexemes := by
  induction n using Concrete.induct with
  | node i cs ih =>
    rw [isName, Bool.or_eq_true] at h
    rw [leaves, lexemes]
    by_cases hComment : commentTypes.contains i.type = true
    · rw [if_pos hComment, if_pos hComment]
    · rw [if_neg hComment, if_neg hComment]
      have h := h.resolve_left hComment
      by_cases hLeaf : cs.isEmpty = true
      · rw [if_pos hLeaf, if_pos (by rw [hLeaf, Bool.true_or])]
      · rw [if_neg hLeaf, Bool.and_eq_true] at h
        rw [if_neg hLeaf, atomicTypes_of_nameTypes h.1, Bool.or_false, if_neg hLeaf,
          leavesOf_eq, lexemesOf_eq]
        rw [areNames_eq, List.all_eq_true] at h
        exact List.flatMap_congr fun c hc => ih c hc (h.2 c hc)

/-- What a name is made of are names. -/
theorem isName_of_mem_parts (h : n.isName = true) (hComment : n.isComment = false) (hc : c ∈ n.parts) :
    c.isName = true := by
  obtain ⟨f, hMem⟩ := mem_children_of_parts hc
  obtain ⟨i, cs⟩ := n
  have hSome : cs.isEmpty = false := by
    cases cs with
    | nil => cases hMem
    | cons _ _ => rfl
  have hComment : commentTypes.contains i.type = false := hComment
  rw [isName, hComment, Bool.false_or, hSome, if_neg Bool.false_ne_true, Bool.and_eq_true, areNames_eq,
    List.all_eq_true] at h
  exact h.2 _ hMem

-- ---------------------------------------------------------------------------
-- Parts in their order
-- ---------------------------------------------------------------------------

/-- At least two nodes have a first and a last one. -/
theorem exists_ends {ns : List Concrete} (h : 2 ≤ ns.length) :
    ∃ first last, ns = first :: (ns.tail.dropLast ++ [last]) := by
  match ns, h with
  | first :: second :: rest, _ =>
    refine ⟨first, (second :: rest).getLast (by simp), ?_⟩
    rw [List.tail_cons, List.dropLast_append_getLast]

/-- Braces stand around what is between the first and the last part. -/
theorem parts_of_areBraced (h : areBraced n.parts = true) :
    ∃ opening closing, n.parts = opening :: (n.inner ++ [closing]) ∧ opening.type = "\x7b" ∧
      closing.type = "\x7d" := by
  simp only [areBraced, Bool.and_eq_true, decide_eq_true_eq] at h
  obtain ⟨⟨hLength, hOpen⟩, hClose⟩ := h
  obtain ⟨opening, closing, hParts⟩ := exists_ends hLength
  rw [hParts] at hOpen hClose
  have hLast : (opening :: (n.parts.tail.dropLast ++ [closing])).getLast? = some closing := by
    rw [← List.cons_append, List.getLast?_append, List.getLast?_singleton, Option.some_or]
  rw [hLast] at hClose
  exact ⟨opening, closing, hParts, by simpa using hOpen, by simpa using hClose⟩

theorem Regular.declaresType (h : n.Regular) (hType : typeDeclarations.contains n.type = true) :
    n.declaresType = true := by
  have hRule := h.rule
  rwa [followsRule, if_pos hType] at hRule

/-- A declaration of a type: modifiers, a keyword, a name, parameters, other clauses and a body. -/
theorem Regular.declaration (h : n.Regular) (hType : typeDeclarations.contains n.type = true) :
    ∃ modifiers keyword name headers others body,
      n.parts = modifiers ++ keyword :: name :: (headers ++ others ++ [body]) ∧
      (∀ m ∈ modifiers, m.type = "modifiers") ∧ keyword.type ≠ "modifiers" ∧ keyword.info.isNamed = false ∧
      name.isSame (n.field? "name") = true ∧ wordTypes.contains name.type = true ∧
      (∀ m ∈ headers, headerTypes.contains m.type = true) ∧
      (∀ m ∈ others.head?, headerTypes.contains m.type = false) ∧ (∀ m ∈ others.tail, m.type ≠ "superclass") ∧
      body.isSame (n.field? "body") = true ∧ body.isBody = true := by
  have hDeclares := h.declaresType hType
  unfold Concrete.declaresType at hDeclares
  have hFront := List.takeWhile_append_dropWhile (p := (·.type == "modifiers")) (l := n.parts)
  have hModifiers : ∀ m ∈ n.parts.takeWhile (·.type == "modifiers"), m.type = "modifiers" := fun m hm => by
    simpa using List.mem_takeWhile_imp hm
  split at hDeclares
  · rename_i keyword name rest hDrop
    simp only [Bool.and_eq_true, Bool.not_eq_true', Option.any_eq_true, List.all_eq_true,
      bne_iff_ne] at hDeclares
    obtain ⟨⟨⟨⟨hKeyword, hName⟩, hWord⟩, hSuper⟩, body, hLast, hSame, hBody⟩ := hDeclares
    obtain ⟨front, rfl⟩ := List.getLast?_eq_some_iff.mp hLast
    rw [List.dropLast_concat] at hSuper
    have hHeaders := List.takeWhile_append_dropWhile (p := (headerTypes.contains ·.type)) (l := front)
    have hNot := List.head?_dropWhile_not (headerTypes.contains ·.type) front
    have hNotModifiers := List.head?_dropWhile_not (·.type == "modifiers") n.parts
    rw [hDrop] at hFront hNotModifiers
    refine ⟨_, keyword, name, front.takeWhile (headerTypes.contains ·.type),
      front.dropWhile (headerTypes.contains ·.type), body, ?_, hModifiers,
      by simpa using hNotModifiers, hKeyword,
      hName, hWord, fun m hm => by simpa using List.mem_takeWhile_imp hm, ?_, hSuper, hSame, hBody⟩
    · rw [hHeaders, hFront]
    · intro m hm
      rw [Option.mem_def.mp hm] at hNot
      simpa using hNot
  · cases hDeclares

theorem Regular.declaresMethod (h : n.Regular) (hType : methodDeclarations.contains n.type = true) :
    n.declaresMethod = true := by
  have hRule := h.rule
  have hOther : typeDeclarations.contains n.type = false := by
    rw [List.contains_iff_mem] at hType
    revert hType
    generalize n.type = type
    revert type
    decide
  rwa [followsRule, hOther, if_neg Bool.false_ne_true, if_pos hType] at hRule

/-- A method: what stands before its name, the name, parameters and clauses, and a body or a semicolon. -/
theorem Regular.method (h : n.Regular) (hType : methodDeclarations.contains n.type = true) :
    ∃ before name rest last, n.parts = before ++ name :: (rest ++ [last]) ∧
      (∀ m ∈ before, m.isSame (n.field? "name") = false) ∧ name.isSame (n.field? "name") = true ∧
      wordTypes.contains name.type = true ∧
      (n.field? "parameters" = none ∨
        ∃ parameters more, rest = parameters :: more ∧ parameters.isSame (n.field? "parameters") = true) ∧
      (last.isSame (n.field? "body") = true ∧ last.isBody = true ∨
        n.field? "body" = none ∧ last.type = ";") := by
  have hDeclares := h.declaresMethod hType
  unfold Concrete.declaresMethod at hDeclares
  have hFront := List.takeWhile_append_dropWhile (p := (!·.isSame (n.field? "name"))) (l := n.parts)
  have hNot := List.head?_dropWhile_not (!·.isSame (n.field? "name")) n.parts
  split at hDeclares
  · rename_i name rest hDrop
    simp only [Bool.and_eq_true, Option.any_eq_true, Bool.or_eq_true, Option.isNone_iff_eq_none,
      beq_iff_eq] at hDeclares
    obtain ⟨⟨hWord, hParameters⟩, last, hLast, hEnd⟩ := hDeclares
    obtain ⟨front, rfl⟩ := List.getLast?_eq_some_iff.mp hLast
    rw [List.dropLast_concat] at hParameters
    rw [hDrop] at hFront hNot
    refine ⟨_, name, front, last, hFront.symm, fun m hm => by simpa using List.mem_takeWhile_imp hm,
      by simpa using hNot, hWord, hParameters.imp_right ?_, hEnd⟩
    rintro ⟨p, hp, hSame⟩
    obtain ⟨more, rfl⟩ := List.head?_eq_some_iff.mp hp
    exact ⟨p, more, rfl, hSame⟩
  · cases hDeclares

/-- A call: what stands before its name, the name, and the arguments. -/
theorem Regular.invocation (h : n.Regular) (hType : n.type = "method_invocation") :
    ∃ before name arguments, n.parts = before ++ [name, arguments] ∧ arguments.type = "argument_list" ∧
      name.isSame (n.field? "name") = true ∧ wordTypes.contains name.type = true := by
  have hInvokes := h.rule
  simp only [followsRule, hType] at hInvokes
  have hInvokes : n.invokes = true := hInvokes
  unfold invokes at hInvokes
  split at hInvokes
  · rename_i arguments name before hParts
    simp only [Bool.and_eq_true, beq_iff_eq] at hInvokes
    obtain ⟨⟨hArguments, hName⟩, hWord⟩ := hInvokes
    refine ⟨before.reverse, name, arguments, ?_, hArguments, hName, hWord⟩
    rw [← List.reverse_reverse n.parts, hParts]
    simp
  · cases hInvokes

/-- A list of arguments: parentheses, and between them nothing or arguments with commas. -/
theorem Regular.arguments (h : n.Regular) (hType : n.type = "argument_list") :
    ∃ opening closing, n.parts = opening :: (n.inner ++ [closing]) ∧ opening.type = "(" ∧ closing.type = ")" ∧
      (n.inner = [] ∨ alternates n.inner = true) := by
  have hLists := h.rule
  simp only [followsRule, hType] at hLists
  have hLists : n.listsArguments = true := hLists
  simp only [listsArguments, Bool.and_eq_true, decide_eq_true_eq, Bool.or_eq_true, List.isEmpty_iff] at hLists
  obtain ⟨⟨⟨hLength, hOpen⟩, hClose⟩, hInner⟩ := hLists
  obtain ⟨opening, closing, hParts⟩ := exists_ends hLength
  rw [hParts] at hOpen hClose
  have hLast : (opening :: (n.parts.tail.dropLast ++ [closing])).getLast? = some closing := by
    rw [← List.cons_append, List.getLast?_append, List.getLast?_singleton, Option.some_or]
  rw [hLast] at hClose
  exact ⟨opening, closing, hParts, by simpa using hOpen, by simpa using hClose, hInner⟩

/-- A dotted name: a name, a point and an identifier. -/
theorem Regular.dotted (h : n.Regular) (hType : nameTypes.contains n.type = true) (hName : n.isName = true)
    (hLeaf : n.isLeaf = false) :
    ∃ front dot word, n.parts = [front, dot, word] ∧ nameTypes.contains front.type = true ∧ dot.type = "." ∧
      wordTypes.contains word.type = true := by
  have hDots := h.rule
  have hRule : n.followsRule = n.dots := by
    rw [List.contains_iff_mem] at hType
    unfold followsRule
    simp only [nameTypes, List.mem_cons, List.not_mem_nil, or_false] at hType
    rcases hType with hType | hType | hType | hType | hType <;>
      simp [hType, hName, hLeaf, typeDeclarations, methodDeclarations, nameTypes]
  rw [hRule] at hDots
  unfold dots at hDots
  split at hDots
  · rename_i front dot word hParts
    simp only [Bool.and_eq_true, beq_iff_eq] at hDots
    exact ⟨front, dot, word, hParts, hDots.1.1, hDots.1.2, hDots.2⟩
  · cases hDots

theorem Regular.genericType (h : n.Regular) (hType : n.type = "generic_type") :
    ∃ base rest, n.parts = base :: rest ∧ nameTypes.contains base.type = true := by
  have hRule := h.rule
  simp only [followsRule, hType] at hRule
  have hRule : n.parts.head?.any (nameTypes.contains ·.type) = true := hRule
  obtain ⟨base, hHead, hBase⟩ := (Option.any_eq_true _ _).mp hRule
  obtain ⟨rest, hParts⟩ := List.head?_eq_some_iff.mp hHead
  exact ⟨base, rest, hParts, hBase⟩

/-- Whether a regular node is a class type can be told. -/
theorem Regular.exists_isTypeTree (h : n.Regular) : ∃ b, n.isTypeTree? = some b := by
  rw [isTypeTree?]
  split
  · exact ⟨_, rfl⟩
  · split
    · rename_i hGeneric
      obtain ⟨base, rest, hBase, -⟩ := h.genericType (by simpa using hGeneric)
      exact ⟨base.isName, by rw [hBase]; rfl⟩
    · exact ⟨false, rfl⟩

theorem Regular.superclass (h : n.Regular) (hType : n.type = "superclass") :
    ∃ keyword type, n.parts = [keyword, type] ∧ keyword.info.isNamed = false := by
  have hRule := h.rule
  simp only [followsRule, hType] at hRule
  have hRule : (n.parts.length == 2 && n.parts.head?.any (!·.info.isNamed)) = true := hRule
  rw [Bool.and_eq_true, beq_iff_eq] at hRule
  obtain ⟨keyword, type, hParts⟩ := List.length_eq_two.mp hRule.1
  exact ⟨keyword, type, hParts, by simpa [hParts] using hRule.2⟩

theorem Regular.enumBodyDeclarations (h : n.Regular) (hType : n.type = "enum_body_declarations") :
    ∃ separator rest, n.parts = separator :: rest ∧ separator.type = ";" := by
  have hRule := h.rule
  simp only [followsRule, hType] at hRule
  have hRule : n.parts.head?.any (·.type == ";") = true := hRule
  obtain ⟨separator, hHead, hSemicolon⟩ := (Option.any_eq_true _ _).mp hRule
  obtain ⟨rest, hParts⟩ := List.head?_eq_some_iff.mp hHead
  exact ⟨separator, rest, hParts, by simpa using hSemicolon⟩

/-- A package: annotations, its keyword, a name and a semicolon. -/
theorem Regular.package (h : n.Regular) (hType : n.type = "package_declaration") :
    ∃ modifiers keyword name semicolon, n.parts = modifiers ++ [keyword, name, semicolon] ∧
      (∀ m ∈ modifiers, m.type ≠ "package" ∧ m.type ≠ ";") ∧ keyword.type = "package" ∧
      keyword.info.isNamed = false ∧ nameTypes.contains name.type = true ∧ name.isName = true ∧
      semicolon.type = ";" := by
  have hRule := h.rule
  simp only [followsRule, hType] at hRule
  have hRule : n.declaresPackage = true := hRule
  have hFront := List.takeWhile_append_dropWhile (p := (·.type != "package")) (l := n.parts)
  have hNot := List.head?_dropWhile_not (·.type != "package") n.parts
  rw [declaresPackage, Bool.and_eq_true, List.all_eq_true] at hRule
  obtain ⟨hModifiers, hRule⟩ := hRule
  split at hRule
  · rename_i keyword name semicolon hDrop
    simp only [Bool.and_eq_true, beq_iff_eq, Bool.not_eq_true'] at hRule
    obtain ⟨⟨⟨hNamed, hName⟩, hIsName⟩, hSemicolon⟩ := hRule
    rw [hDrop] at hFront hNot
    refine ⟨_, keyword, name, semicolon, hFront.symm, ?_, by simpa using hNot, hNamed, hName,
      hIsName, hSemicolon⟩
    intro m hm
    exact ⟨by simpa using List.mem_takeWhile_imp hm, by simpa using hModifiers m hm⟩
  · cases hRule

/-- What is imported: a name, perhaps a point and an asterisk, and a semicolon. -/
theorem exists_of_namesImport {ns : List Concrete} (h : namesImport ns = true) :
    ∃ name wildcard semicolon, ns = name :: (wildcard ++ [semicolon]) ∧
      nameTypes.contains name.type = true ∧ name.isName = true ∧ semicolon.type = ";" ∧
      (wildcard = [] ∨ ∃ dot asterisk, wildcard = [dot, asterisk] ∧ dot.type = "." ∧
        asterisk.type = "asterisk" ∧ asterisk.lexemes.map type = ["*"]) := by
  unfold namesImport at h
  split at h
  · rename_i name semicolon
    simp only [Bool.and_eq_true, beq_iff_eq] at h
    exact ⟨name, [], semicolon, rfl, h.1.1, h.1.2, h.2, Or.inl rfl⟩
  · rename_i name dot asterisk semicolon
    simp only [Bool.and_eq_true, beq_iff_eq] at h
    obtain ⟨⟨⟨⟨⟨hType, hName⟩, hDot⟩, hAsterisk⟩, hLexemes⟩, hSemicolon⟩ := h
    exact ⟨name, [dot, asterisk], semicolon, rfl, hType, hName, hSemicolon,
      Or.inr ⟨dot, asterisk, rfl, hDot, hAsterisk, hLexemes⟩⟩
  · cases h

/-- An import: its keyword, perhaps another one, and what is imported. -/
theorem Regular.import (h : n.Regular) (hType : n.type = "import_declaration") :
    ∃ keyword statics name wildcard semicolon,
      n.parts = keyword :: (statics ++ name :: (wildcard ++ [semicolon])) ∧ keyword.type = "import" ∧
      keyword.info.isNamed = false ∧
      (statics = [] ∨ ∃ word, statics = [word] ∧ word.type = "static" ∧ word.info.isNamed = false) ∧
      nameTypes.contains name.type = true ∧ name.isName = true ∧ semicolon.type = ";" ∧
      (wildcard = [] ∨ ∃ dot asterisk, wildcard = [dot, asterisk] ∧ dot.type = "." ∧
        asterisk.type = "asterisk" ∧ asterisk.lexemes.map type = ["*"]) := by
  have hRule := h.rule
  simp only [followsRule, hType] at hRule
  have hRule : n.declaresImport = true := hRule
  unfold declaresImport at hRule
  split at hRule
  · rename_i keyword second rest hParts
    simp only [Bool.and_eq_true, beq_iff_eq, Bool.not_eq_true'] at hRule
    obtain ⟨⟨hKeyword, hNamed⟩, hRule⟩ := hRule
    split at hRule
    · rename_i hStatic
      rw [Bool.and_eq_true, Bool.not_eq_true'] at hRule
      obtain ⟨name, wildcard, semicolon, rfl, hNames⟩ := exists_of_namesImport hRule.2
      exact ⟨keyword, [second], name, wildcard, semicolon, hParts, hKeyword, hNamed,
        Or.inr ⟨second, rfl, hStatic, hRule.1⟩, hNames⟩
    · obtain ⟨name, wildcard, semicolon, hRest, hNames⟩ := exists_of_namesImport hRule
      exact ⟨keyword, [], name, wildcard, semicolon, by rw [hParts, hRest]; rfl, hKeyword, hNamed, Or.inl rfl,
        hNames⟩
  · cases hRule

end SourceMigration.Concrete
