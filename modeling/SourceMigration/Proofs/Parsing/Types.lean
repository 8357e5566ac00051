import SourceMigration.Proofs.Parsing.Parsed

/-!
# SourceMigration — texts that are class types

A class type is parsed in a class made up for it. The lexemes of the type are some of those of the class, and
they begin and end where the text of the type does, so that the tree of the type prints as that text.

## Results

* `eq_of_byteLength`      — places told by bytes tell characters apart.
* `exists_lexemes`        — the lexemes of the type stand among those of the class.
* `reported_of_parseType` — of a text that is no class type, what is wrong is reported.
* `SingleType.printed`    — the tree of a class type prints as the type does.
-/

namespace SourceMigration

open Concrete (Laid)
open TreeBuilder (Taken token Made IsList)

-- ---------------------------------------------------------------------------
-- Places and characters
-- ---------------------------------------------------------------------------

/-- What stands before the same place of a text is the same. -/
theorem eq_of_byteLength {cs ds rest rest' : List Char} (h : cs ++ rest = ds ++ rest')
    (hLength : Text.byteLength cs = Text.byteLength ds) : cs = ds ∧ rest = rest' := by
  induction cs generalizing ds with
  | nil =>
    cases ds with
    | nil => exact ⟨rfl, h⟩
    | cons d ds =>
      have := d.utf8Size_pos
      simp at hLength
      omega
  | cons c cs ih =>
    cases ds with
    | nil =>
      have := c.utf8Size_pos
      simp at hLength
      omega
    | cons d ds =>
      obtain ⟨rfl, hRest⟩ := List.cons.inj h
      obtain ⟨rfl, rfl⟩ := ih hRest (by simpa using hLength)
      exact ⟨rfl, rfl⟩

-- ---------------------------------------------------------------------------
-- The type of the only field
-- ---------------------------------------------------------------------------

namespace Concrete

variable {n c d root : Concrete} {f : Option String}

theorem lexemes_part (h : (f, c) ∈ n.children) (hComment : n.isComment = false)
    (hAtomic : TreeBuilder.atomicTypes.contains n.type = false) : c.lexemes <:+: n.lexemes := by
  have hLeaf : n.isLeaf = false := by
    obtain ⟨i, cs⟩ := n
    cases cs with
    | nil => cases h
    | cons _ _ => rfl
  rw [lexemes_eq n, hComment, if_neg Bool.false_ne_true, hLeaf, hAtomic, Bool.false_or,
    if_neg Bool.false_ne_true]
  obtain ⟨front, back, hSplit⟩ := List.append_of_mem h
  rw [hSplit, List.flatMap_append, List.flatMap_cons]
  exact ⟨front.flatMap fun c => c.2.lexemes, back.flatMap fun c => c.2.lexemes, by simp⟩

theorem mem_children_of_field {field : String} (h : n.field? field = some c) : ∃ f, (f, c) ∈ n.children := by
  obtain ⟨d, hd, rfl⟩ := Option.map_eq_some_iff.mp h
  exact ⟨d.1, List.mem_of_find?_eq_some hd⟩

/-- A child is told from the others. -/
theorem Regular.eq_of_id (hn : n.Regular) (hc : ∃ f, (f, c) ∈ n.children) (hd : ∃ f, (f, d) ∈ n.children)
    (hId : c.info.id = d.info.id) : c = d := by
  obtain ⟨f, hc⟩ := hc
  obtain ⟨g, hd⟩ := hd
  exact congrArg Prod.snd (List.inj_on_of_nodup_map hn.distinct hc hd hId)

/-- The body of a type declaration is what was found in its field. -/
theorem Regular.body_eq (hn : n.Regular) (hType : TreeBuilder.typeDeclarations.contains n.type = true)
    (h : n.field? "body" = some c) : c ∈ n.parts ∧ c.isBody = true := by
  obtain ⟨modifiers, keyword, name, headers, others, body, hParts, -, -, -, -, -, -, -, -, hSame, hBody⟩ :=
    hn.declaration hType
  have hMem : body ∈ n.parts := by simp [hParts]
  rw [isSame, h] at hSame
  have hEq := hn.eq_of_id (mem_children_of_field h) (mem_children_of_parts hMem) (by simpa using hSame)
  exact hEq ▸ ⟨hMem, hBody⟩

theorem exists_of_holderFieldType {type : Concrete} (h : Parsing.holderFieldType? root = some (some type)) :
    ∃ declaration body field f g, (f, declaration) ∈ root.children ∧ declaration.type = "class_declaration" ∧
      declaration.field? "body" = some body ∧ (g, field) ∈ body.children ∧ field.type = "field_declaration" ∧
      field.field? "type" = some type := by
  unfold Parsing.holderFieldType? at h
  split at h
  · rename_i declaration hNamed
    split at h
    · cases h
    · rename_i hClass
      obtain ⟨body, hBody, hType⟩ := Option.map_eq_some_iff.mp h
      split at hType
      · rename_i field hField
        have hDeclaration : declaration ∈ root.namedChildren := by simp [hNamed]
        obtain ⟨⟨f, _⟩, hf, rfl⟩ := List.mem_map.mp (List.mem_filter.mp hDeclaration).1
        have hOnly : field ∈ body.namedChildren.filter (·.type == "field_declaration") := by simp [hField]
        obtain ⟨hNamed, hFieldType⟩ := List.mem_filter.mp hOnly
        obtain ⟨⟨g, _⟩, hg, rfl⟩ := List.mem_map.mp (List.mem_filter.mp hNamed).1
        exact ⟨_, body, _, f, g, hf, by simpa using hClass, hBody, hg, by simpa using hFieldType, hType⟩
      · cases hType
  · cases h

/-- The only declaration has a body that can be looked into. -/
theorem holderFieldType_ne_none (hRegular : ∀ m ∈ root.inside, m.Regular) :
    Parsing.holderFieldType? root ≠ none := by
  unfold Parsing.holderFieldType?
  split
  · rename_i declaration hNamed
    split
    · simp
    · rename_i hClass
      have hDeclaration : declaration ∈ root.namedChildren := by simp [hNamed]
      obtain ⟨c, hc, hSame⟩ := List.mem_map.mp (List.mem_filter.mp hDeclaration).1
      have hType : TreeBuilder.typeDeclarations.contains declaration.type = true := by
        rw [show declaration.type = "class_declaration" by simpa using hClass]
        decide
      obtain ⟨_, _, _, _, _, body, -, -, -, -, -, -, -, -, -, hSame, -⟩ :=
        (hRegular _ (hSame ▸ mem_inside_of_children hc)).declaration hType
      intro hNone
      rw [Option.map_eq_none_iff] at hNone
      rw [isSame, hNone] at hSame
      cases hSame
  · simp

/-- The type of the only field is inside the class, and so are its lexemes among those of the class. -/
theorem exists_lexemes (hRegular : ∀ m ∈ root.inside, m.Regular) {type : Concrete}
    (h : Parsing.holderFieldType? root = some (some type)) :
    type ∈ root.inside ∧ type.lexemes <:+: root.parts.flatMap lexemes := by
  obtain ⟨declaration, body, field, f, g, hDeclaration, hClass, hBody, hField, hFieldType, hType⟩ :=
    exists_of_holderFieldType h
  have hIn := mem_inside_of_children hDeclaration
  have hClassIs : declaration.isComment = false ∧
    TreeBuilder.atomicTypes.contains declaration.type = false := by
    rw [isComment, hClass]
    decide
  have hFieldIs : field.isComment = false ∧ TreeBuilder.atomicTypes.contains field.type = false := by
    rw [isComment, hFieldType]
    decide
  obtain ⟨hBodyMem, hBodyIs⟩ := (hRegular _ hIn).body_eq (by rw [hClass]; decide) hBody
  obtain ⟨e, hBodyChild⟩ := mem_children_of_parts hBodyMem
  obtain ⟨i, hTypeChild⟩ := mem_children_of_field hType
  have hBodyIn := mem_inside_of_parts hIn hBodyMem
  have hFieldIn := mem_inside_trans hBodyIn (mem_inside_of_children hField)
  refine ⟨mem_inside_trans hFieldIn (mem_inside_of_children hTypeChild), ?_⟩
  have hPart : declaration ∈ root.parts := by
    refine List.mem_filter.mpr ⟨List.mem_map.mpr ⟨_, hDeclaration, rfl⟩, ?_⟩
    simp [hClassIs.1]
  have hRoot : declaration.lexemes <:+: root.parts.flatMap lexemes := by
    obtain ⟨front, back, hSplit⟩ := List.append_of_mem hPart
    rw [hSplit, List.flatMap_append, List.flatMap_cons]
    exact ⟨front.flatMap lexemes, back.flatMap lexemes, by simp⟩
  have hAtomic : TreeBuilder.atomicTypes.contains body.type = false := by
    simpa using (Bool.and_eq_true_iff.mp hBodyIs).2
  exact (((lexemes_part hTypeChild hFieldIs.1 hFieldIs.2).trans
    (lexemes_part hField (isComment_of_mem_parts hBodyMem) hAtomic)).trans
    (lexemes_part hBodyChild hClassIs.1 hClassIs.2)).trans hRoot

end Concrete

-- ---------------------------------------------------------------------------
-- The tree of a class type
-- ---------------------------------------------------------------------------

namespace Parsing

variable {source : List Char}

/-- Lexemes that stand in a text are taken from where the first of them begins. -/
theorem exists_takenFrom {before rest : List Char} {ns ms : List Concrete} {n : Concrete}
    (h : Laid before rest (n :: ns ++ ms)) (hSource : source = before ++ rest) :
    ∃ front part back ts, source = front ++ part ++ back ∧ n.info.start = Text.byteLength front ∧
      Taken source (Text.byteLength front) (n :: ns) ts (Text.byteLength (front ++ part)) ∧
      (sourceOf ts).toList = part ∧ (ts.head?.map Token.leading).getD "" = "" := by
  cases h with
  | @cons _ gap spelling rest _ _ hGap hSpells hStands h =>
    have hSource' : source = (before ++ gap) ++ [] ++ spelling ++ rest := by
      rw [hSource]
      simp only [List.append_assoc, List.nil_append]
    obtain ⟨part, back, ts, rfl, -, hTaken, hText⟩ :=
      TreeBuilder.exists_split h (show source = before ++ gap ++ spelling ++ rest by simpa using hSource')
    refine ⟨before ++ gap, spelling ++ part, back, _, by simpa using hSource', hStands.start,
      .cons (TreeBuilder.token_eq hSource' (by simpa using hStands)) ⟨by simpa using hSpells, by simp⟩
        (by simpa using hTaken), ?_, rfl⟩
    rw [TreeBuilder.toList_sourceOf_cons, hText]
    simp

variable [TreeSitter] [LawfulTreeSitter] {text : String} {tree : Node}

/-- A class type that begins and ends where its text does becomes a name, or a name with arguments. It prints
as the text, and nothing stands before it. -/
theorem exists_typeTree {type : Concrete}
    (hAccepted : (TreeSitter.root (holderFront ++ text ++ holderBack)).hasError = false)
    (hField : holderFieldType? (TreeSitter.root (holderFront ++ text ++ holderBack)) = some (some type))
    (hStart : type.info.start = holderFront.utf8ByteSize)
    (hStop : type.info.stop = holderFront.utf8ByteSize + text.utf8ByteSize)
    (hTree : type.isTypeTree? = some true) :
    ∃ v stop, TreeBuilder.typeTree (holderFront ++ text ++ holderBack).toList type holderFront.utf8ByteSize =
      some (v, stop) ∧ v.form ∈ [Form.name, .parameterized] ∧ v.Sturdy ∧ v.text = text ∧ v.leading = "" := by
  have hRegular := LawfulTreeSitter.regular hAccepted
  obtain ⟨mark, rest, -, hText, hLaid⟩ := LawfulTreeSitter.laid hAccepted
  obtain ⟨hIn, hLexemes⟩ := Concrete.exists_lexemes hRegular hField
  have hComment : type.isComment = false := by
    unfold Concrete.isTypeTree? at hTree
    rw [Concrete.isComment]
    split at hTree
    · rename_i hType
      simp only [List.contains_iff_mem, List.mem_cons, List.not_mem_nil, or_false] at hType
      rcases hType with hType | hType <;> rw [hType] <;> rfl
    · split at hTree
      · rename_i hType
        rw [beq_iff_eq] at hType
        rw [hType]
        rfl
      · cases hTree
  have hType := hRegular type hIn
  -- the type has a first lexeme, which begins where the type does
  obtain ⟨first, more, hFirst⟩ : ∃ first more, type.lexemes = first :: more := by
    refine List.exists_cons_of_ne_nil fun hNil => ?_
    have hBegins := hType.begins hComment
    rw [hNil] at hBegins
    cases hBegins
  obtain ⟨pre, post, hSplit⟩ := hLexemes
  rw [← hSplit, List.append_assoc, hFirst] at hLaid
  obtain ⟨part, rest', -, rfl, hLaid, -, -⟩ := TreeBuilder.exists_split hLaid hText
  obtain ⟨front, spelled, back, ts, hSource, hAt, hTaken, hSpelled, hLeading⟩ :=
    exists_takenFrom hLaid
      (show (holderFront ++ text ++ holderBack).toList = _ by rw [hText, List.append_assoc])
  have hBegins := hType.begins hComment
  have hEnds := hType.ends hComment
  rw [hFirst] at hBegins hEnds
  obtain ⟨last, hLast, hLastStop⟩ := Option.map_eq_some_iff.mp hEnds
  have hFrontStart : first.info.start = type.info.start := by simpa using congrArg (·.map (·.1)) hBegins
  have hParts : holderFront.toList ++ (text.toList ++ holderBack.toList) = front ++ (spelled ++ back) := by
    rw [← List.append_assoc, ← List.append_assoc, ← hSource]
    simp
  obtain ⟨hFront, hBehind⟩ := eq_of_byteLength hParts (by
    rw [← hAt, hFrontStart, hStart, Text.utf8ByteSize_eq])
  have hSame : text.toList = spelled := by
    refine (eq_of_byteLength hBehind ?_).1
    have hEnd := hTaken.stop_eq hLast
    rw [hLastStop, hStop, Text.utf8ByteSize_eq, Text.utf8ByteSize_eq, hFront, Text.byteLength_append] at hEnd
    omega
  have hConverts : TreeBuilder.Converts (holderFront ++ text ++ holderBack).toList _ type :=
    TreeBuilder.converts hRegular hIn hComment
  have hReads := hConverts.typeTree hTree
  rw [hFirst] at hReads
  obtain ⟨v, hv, hSingle⟩ := hReads _ ts _ hTaken
  have hOffset : holderFront.utf8ByteSize = Text.byteLength front := by rw [Text.utf8ByteSize_eq, hFront]
  refine ⟨v, _, by rw [hOffset, hv], hSingle.form, hSingle.solid.sturdy, ?_, ?_⟩
  · rw [Node.text, hSingle.tokens]
    exact String.toList_injective (hSpelled.trans hSame.symm)
  · rw [Node.leading, hSingle.tokens, hLeading]

/-- What is refused as the text of a class type is so for what is reported of it. -/
theorem reported_of_parseType {why : TypeRefusal} (h : parseType text = .error why) :
    ∀ refusal, why = .refused refusal → refusal.IsReported := by
  rintro refusal rfl
  unfold parseType at h
  simp only at h
  split at h
  · cases h
    exact diagnose_reported _ fun n hn => LawfulTreeSitter.whole n hn
  · rename_i hError
    have hAccepted : (TreeSitter.root (holderFront ++ text ++ holderBack)).hasError = false :=
      by simpa using hError
    have hRegular := LawfulTreeSitter.regular hAccepted
    split at h
    · rename_i hNone
      exact absurd hNone (Concrete.holderFieldType_ne_none hRegular)
    · cases h
    · rename_i type hField
      split at h
      · cases h
      · rename_i hSpan
        simp only [Bool.or_eq_true, bne_iff_ne, not_or, Decidable.not_not] at hSpan
        split at h
        · rename_i hNone
          obtain ⟨b, hTree⟩ := (hRegular type (Concrete.exists_lexemes hRegular hField).1).exists_isTypeTree
          rw [hTree] at hNone
          cases hNone
        · cases h
        · rename_i hTree
          obtain ⟨v, stop, hv, -⟩ := exists_typeTree hAccepted hField hSpan.1 hSpan.2 hTree
          rw [hv] at h
          cases h

/-- The tree of a class type prints as the type does, and nothing stands before it. -/
theorem SingleType.printed (h : SingleType text tree) :
    tree.form ∈ [Form.name, .parameterized] ∧ tree.Sturdy ∧ tree.text = text ∧ tree.leading = "" := by
  obtain ⟨hAccepted, type, hField, hStart, hStop, hTree, stop, hConverted⟩ := h
  obtain ⟨v, stop', hv, hPrinted⟩ := exists_typeTree hAccepted hField hStart hStop hTree
  rw [hv] at hConverted
  cases hConverted
  exact hPrinted

end Parsing

end SourceMigration
