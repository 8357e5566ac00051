import SourceMigration.Proofs.Parsing.Laws

/-!
# SourceMigration — samples of what the parser library reports

A library that knows a few texts, and finds an error in any other. What it reports of a text is written down
as a draft: the nodes with their types and fields, the leaves with their spellings and with the blanks before
each, and no places. These are counted when the draft is laid out. Whether the library keeps to what is relied
on is checked for each of its texts.

## Results

* `Laid.of_isLaid`    — the check whether lexemes stand in a text is sound.
* `lawful_library`    — a library of texts that pass the check keeps to what is said of it.
* `Sample.parse_iff`  — the unit of a text that the library knows.
-/

namespace SourceMigration

open Layout (Trivia Firm lastLine)

-- ---------------------------------------------------------------------------
-- Places
-- ---------------------------------------------------------------------------

/-- A place in a text. -/
structure Spot where
  offset : Nat := 0
  row : Nat := 0
  column : Nat := 0

namespace Spot

/-- The place behind a character. -/
def pass (s : Spot) (c : Char) : Spot :=
  if c = '\n' then ⟨s.offset + c.utf8Size, s.row + 1, 0⟩
  else ⟨s.offset + c.utf8Size, s.row, s.column + c.utf8Size⟩

/-- The place behind some characters. -/
def after (s : Spot) (cs : List Char) : Spot := cs.foldl pass s

/-- Whether the place is right behind a text. -/
structure IsBehind (s : Spot) (before : List Char) : Prop where
  offset : s.offset = Text.byteLength before
  row : s.row = before.count '\n'
  column : s.column = Text.byteLength (lastLine before)

theorem isBehind_nil : ({} : Spot).IsBehind [] := ⟨rfl, rfl, rfl⟩

theorem IsBehind.pass {s : Spot} {before : List Char} (h : s.IsBehind before) (c : Char) :
    (s.pass c).IsBehind (before ++ [c]) := by
  have hSize : Text.byteLength (before ++ [c]) = Text.byteLength before + c.utf8Size := by simp
  unfold Spot.pass
  split
  · rename_i hFeed
    exact ⟨by rw [hSize, h.offset], by simp [h.row, hFeed], by simp [lastLine, hFeed]⟩
  · rename_i hOther
    refine ⟨by rw [hSize, h.offset], by simp [h.row, hOther], ?_⟩
    simp [h.column, lastLine, hOther]

theorem IsBehind.after {s : Spot} {before : List Char} (h : s.IsBehind before) (cs : List Char) :
    (s.after cs).IsBehind (before ++ cs) := by
  induction cs generalizing s before with
  | nil => simpa [Spot.after] using h
  | cons c cs ih => simpa [Spot.after] using ih (h.pass c)

end Spot

-- ---------------------------------------------------------------------------
-- Checks
-- ---------------------------------------------------------------------------

/-- Whether there is nothing but trivia in a text, which has no more than so many pieces. -/
def Layout.isTrivia (atEnd : Bool) : Nat → List Char → Bool
  | _, [] => true
  | 0, _ => false
  | k + 1, '/' :: '/' :: cs =>
    let rest := cs.dropWhile (· != '\n')
    (!rest.isEmpty || atEnd) && isTrivia atEnd k rest
  | k + 1, '/' :: '*' :: cs =>
    match Text.commentTail? cs with
    | none => false
    | some n => isTrivia atEnd k (cs.drop n)
  | k + 1, c :: cs => Text.isGap c && isTrivia atEnd k cs

theorem Layout.trivia_of_isTrivia {atEnd : Bool} {k : Nat} {cs : List Char} (h : isTrivia atEnd k cs = true) :
    Trivia atEnd cs := by
  fun_induction isTrivia atEnd k cs with
  | case1 => exact .nil
  | case2 => cases h
  | case3 k cs rest ih =>
    rw [Bool.and_eq_true, Bool.or_eq_true, Bool.not_eq_true'] at h
    rw [← List.takeWhile_append_dropWhile (p := (· != '\n')) (l := cs)]
    refine .lineComment ?_ ?_ (ih h.2)
    · intro hMem
      have := List.all_eq_true.mp (List.all_takeWhile (p := (· != '\n'))) _ hMem
      simp at this
    · cases hRest : cs.dropWhile (· != '\n') with
      | nil => exact Or.inr ⟨rfl, h.1.resolve_left (by simp [rest, hRest])⟩
      | cons d ds =>
        have := List.head?_dropWhile_not (· != '\n') cs
        rw [hRest] at this
        left
        simpa using this
  | case4 => cases h
  | case5 k cs n hTail ih =>
    obtain ⟨body, rest, rfl, rfl, hBody⟩ := exists_of_commentTail hTail
    refine .blockComment hBody ?_
    have hDrop : (body ++ '*' :: '/' :: rest).drop (body.length + 2) = rest := by simp
    rw [hDrop] at ih
    exact ih (hDrop ▸ h)
  | case6 k c cs _ _ ih =>
    rw [Bool.and_eq_true] at h
    exact .gap h.1 (ih h.2)

namespace Concrete

/-- Whether a lexeme can be spelled so. -/
def canSpell (n : Concrete) (spelling : List Char) : Bool :=
  spelling.head?.any (!Text.isGap ·) && spelling.getLast?.any (!Text.isGap ·) &&
    (n.info.isNamed || spelling == n.type.toList) && (!wordTypes.contains n.type || !spelling.contains '.') &&
    (!n.info.isNamed || !(listSigns.map String.toList).contains spelling)

theorem spells_of_canSpell {n : Concrete} {spelling : List Char} (h : n.canSpell spelling = true) :
    n.Spells spelling := by
  simp only [canSpell, Bool.and_eq_true, Bool.or_eq_true, Bool.not_eq_true', beq_iff_eq, Option.any_eq_true,
    List.contains_eq_mem, decide_eq_false_iff_not] at h
  obtain ⟨⟨⟨⟨hFirst, hLast⟩, hSign⟩, hWord⟩, hRule⟩ := h
  refine ⟨⟨hFirst, hLast⟩, fun hNamed => hSign.resolve_left (by simp [hNamed]), fun hType => ?_,
    fun hNamed => ?_⟩
  · exact hWord.resolve_left (by simpa using hType)
  · intro hMem
    refine hRule.resolve_left (by simp [hNamed]) (List.mem_map.mpr ⟨_, hMem, ?_⟩)
    exact String.toList_ofList

/-- Whether lexemes stand one after another in a text, which begins at a place. -/
def isLaid (s : Spot) (cs : List Char) : List Concrete → Bool
  | [] => Layout.isTrivia true cs.length cs
  | n :: ns =>
    match Text.takeBytes? (n.info.start - s.offset) cs, Text.dropBytes? (n.info.start - s.offset) cs with
    | some gap, some cs =>
      match Text.takeBytes? (n.info.stop - n.info.start) cs,
        Text.dropBytes? (n.info.stop - n.info.start) cs with
      | some spelling, some cs =>
        let front := s.after gap
        let back := front.after spelling
        Layout.isTrivia false gap.length gap && n.canSpell spelling &&
          n.info.start == front.offset && n.info.row == front.row && n.info.column == front.column &&
          n.info.stop == back.offset && isLaid back cs ns
      | _, _ => false
    | _, _ => false

end Concrete

theorem Text.append_of_bytes {n : Nat} {cs ds es : List Char} (hTake : takeBytes? n cs = some ds)
    (hDrop : dropBytes? n cs = some es) : cs = ds ++ es := by
  fun_induction takeBytes? n cs generalizing ds es with
  | case1 =>
    cases hTake
    exact Option.some.inj (hDrop.symm.trans (by rw [dropBytes?])) ▸ rfl
  | case2 =>
    cases hTake
    cases hDrop
    rfl
  | case3 n c cs hSize ih =>
    obtain ⟨ds, hRest, rfl⟩ := Option.map_eq_some_iff.mp hTake
    rw [dropBytes?, if_pos hSize] at hDrop
    rw [List.cons_append, ih hRest hDrop]
  | case4 => cases hTake

/-- Lexemes that pass the check stand one after another. -/
theorem Concrete.Laid.of_isLaid {s : Spot} {before cs : List Char} {ns : List Concrete}
    (hs : s.IsBehind before)
    (h : isLaid s cs ns = true) : Laid before cs ns := by
  induction ns generalizing s before cs with
  | nil => exact .nil (Layout.trivia_of_isTrivia h)
  | cons n ns ih =>
    rw [isLaid] at h
    split at h
    · rename_i gap rest hTake hDrop
      split at h
      · rename_i spelling rest' hTake' hDrop'
        simp only [Bool.and_eq_true, beq_iff_eq] at h
        obtain ⟨⟨⟨⟨⟨⟨hGap, hSpells⟩, hStart⟩, hRow⟩, hColumn⟩, hStop⟩, hRest⟩ := h
        have hFront := hs.after gap
        have hBack := hFront.after spelling
        rw [Text.append_of_bytes hTake hDrop, Text.append_of_bytes hTake' hDrop', ← List.append_assoc]
        refine .cons (Layout.trivia_of_isTrivia hGap) (spells_of_canSpell hSpells)
          ⟨hStart.trans hFront.offset, ?_, hRow.trans hFront.row,
          hColumn.trans hFront.column⟩ (ih hBack hRest)
        rw [hStop, hBack.offset, Text.byteLength_append _ spelling]
      · cases h
    · cases h

namespace Concrete

/-- Whether a node below the root is as the grammar has it. -/
def isRegular (n : Concrete) : Bool :=
  (n.info.isNamed || n.isLeaf) &&
    (!n.info.isNamed || n.type.toList.head?.any fun c => c.isAlpha || c == '_') &&
    (!wordTypes.contains n.type || n.isLeaf) && decide (n.children.map (·.2.info.id)).Nodup &&
    (n.isComment || n.lexemes.head?.map (fun m => (m.info.start, m.info.row, m.info.column)) ==
      some (n.info.start, n.info.row, n.info.column)) &&
    (n.isComment || n.lexemes.getLast?.map (·.info.stop) == some n.info.stop) &&
    openAfter? 0 (n.parts.map type) == some 0 && n.parts.head?.all (·.type != ",") && n.followsRule

theorem regular_of_isRegular {n : Concrete} (h : n.isRegular = true) : n.Regular := by
  simp only [isRegular, Bool.and_eq_true, Bool.or_eq_true, Bool.not_eq_true', beq_iff_eq,
    decide_eq_true_eq] at h
  obtain ⟨⟨⟨⟨⟨⟨⟨⟨hSign, hNamed⟩, hWord⟩, hDistinct⟩, hBegins⟩, hEnds⟩, hPaired⟩, hFront⟩, hRule⟩ := h
  exact ⟨fun h => hSign.resolve_left (by simp [h]), fun h => hNamed.resolve_left (by simp [h]),
    fun h => hWord.resolve_left (by simpa using h), hDistinct, fun h => hBegins.resolve_left (by simp [h]),
    fun h => hEnds.resolve_left (by simp [h]), hPaired, hFront, hRule⟩

end Concrete

-- ---------------------------------------------------------------------------
-- Drafts
-- ---------------------------------------------------------------------------

/-- A concrete syntax tree as it is written down: leaves with what stands before them, and no places. -/
inductive Draft where
  | leaf (type : String) (isNamed : Bool) (spelling gap : String)
  | node (type : String) (children : List Draft)
  | under (field : String) (d : Draft)

namespace Draft

/-- The field of a child. -/
def field? : Draft → Option String
  | under f _ => some f
  | _ => none

/-- What is made of a number, which is counted first, so that no sums are carried along. -/
def counted {α : Type} (n : Nat) (f : Nat → α) : α :=
  match n with
  | 0 => f 0
  | m + 1 => f (m + 1)

/-- The same of a place. -/
def settled {α : Type} (s : Spot) (f : Spot → α) : α :=
  counted s.offset fun o => counted s.row fun r => counted s.column fun c => f ⟨o, r, c⟩

mutual

/-- The text of a draft that begins at a place, its tree, whose nodes are numbered from a number on, and the
place and the number behind them. -/
def layOut (d : Draft) (s : Spot) (id : Nat) : List Char × Concrete × Spot × Nat :=
  match d with
  | leaf type isNamed spelling gap =>
    settled (s.after gap.toList) fun front =>
      settled (front.after spelling.toList) fun back =>
        counted (id + 1) fun next =>
          (gap.toList ++ spelling.toList,
            .node ⟨type, id, isNamed, false, front.offset, back.offset, front.row, front.column⟩ [],
            back, next)
  | node type ds =>
    counted (id + 1) fun next =>
      match layOutAll ds s next with
      | (cs, ns, back, next) =>
        -- a node begins with the first of its children that is no comment
        let first := ((ns.find? (!·.2.isComment)).map (·.2.info)).getD ⟨type, id, true, false, 0, 0, 0, 0⟩
        (cs, .node ⟨type, id, true, false, first.start, back.offset, first.row, first.column⟩ ns, back, next)
  | under _ d => layOut d s id

/-- The same of several drafts. -/
def layOutAll (ds : List Draft) (s : Spot) (id : Nat) :
    List Char × List (Option String × Concrete) × Spot × Nat :=
  match ds with
  | [] => ([], [], s, id)
  | d :: ds =>
    match layOut d s id with
    | (cs, n, back, next) =>
      match layOutAll ds back next with
      | (cs', ns, back, next) => (cs ++ cs', (d.field?, n) :: ns, back, next)

end

/-- A sign or a keyword. -/
def sign (s : String) (gap : String := "") : Draft := leaf s false s gap

/-- An identifier. -/
def word (s : String) (gap : String := "") : Draft := leaf "identifier" true s gap

/-- The simple name of a type. -/
def typeWord (s : String) (gap : String := "") : Draft := leaf "type_identifier" true s gap

/-- A dotted name, whose parts are given from the last to the first. -/
def dotted (gap : String) : List String → Draft
  | [] => word "" gap
  | [s] => word s gap
  | s :: ss => node "scoped_identifier" [under "scope" (dotted gap ss), sign ".", under "name" (word s)]

/-- An import of a type, of whose name the parts are given from the last to the first. -/
def importing (parts : List String) (gap : String := "") : Draft :=
  node "import_declaration" [sign "import" gap, dotted " " parts, sign ";"]

/-- An import of all that is in a package. -/
def importingAll (parts : List String) (gap : String := "") : Draft :=
  node "import_declaration" [sign "import" gap, dotted " " parts, sign ".",
  node "asterisk" [sign "*"], sign ";"]

/-- An import of all static members of a type. -/
def importingStatic (parts : List String) (gap : String := "") : Draft :=
  node "import_declaration" [sign "import" gap, sign "static" " ", dotted " " parts, sign ".",
    node "asterisk" [sign "*"], sign ";"]

/-- The package of a file. -/
def packageOf (parts : List String) (gap : String := "") : Draft :=
  node "package_declaration" [sign "package" gap, dotted " " parts, sign ";"]

/-- Something between braces. -/
def braced (type : String) (inside : List Draft) (opening : String := " ")
    (closing : String := " ") : Draft :=
  node type (sign "\x7b" opening :: inside ++ [sign "\x7d" closing])

/-- A class, and perhaps its supertype. -/
def classOf (name : String) (supertype : Option Draft) (body : Draft) (gap : String := "") : Draft :=
  node "class_declaration" ([sign "class" gap, under "name" (word name " ")] ++
    (supertype.map fun t => under "superclass" (node "superclass" [sign "extends" " ", t])).toList ++
    [under "body" body])

/-- Some drafts with commas between them. -/
def separated : List Draft → List Draft
  | [] => []
  | [d] => [d]
  | d :: ds => d :: sign "," :: separated ds

/-- A method without modifiers, given its type, its parameters and its body. -/
def methodOf (type : Draft) (name : String) (parameters : List Draft) (body : Draft) : Draft :=
  node "method_declaration" [under "type" type, under "name" (word name " "),
    under "parameters" (node "formal_parameters" (sign "(" :: separated parameters ++ [sign ")"])),
    under "body" body]

/-- A variable, and perhaps its value. -/
def variableOf (rule : String) (type : Draft) (name : String) (value : Option Draft) : Draft :=
  node rule [under "type" type,
    under "declarator" (node "variable_declarator" (under "name" (word name " ") ::
      (value.map fun v => [sign "=" " ", under "value" v]).getD [])), sign ";"]

/-- A field without modifiers. -/
def fieldOf (type : Draft) (name : String) (value : Option Draft := none) : Draft :=
  variableOf "field_declaration" type name value

/-- A variable of a block. -/
def localOf (type : Draft) (name : String) (value : Option Draft := none) : Draft :=
  variableOf "local_variable_declaration" type name value

/-- The field of an object. -/
def accessOf (object : Draft) (name : String) : Draft :=
  node "field_access" [under "object" object, sign ".", under "field" (word name)]

/-- A type named by way of another, of whose name the parts are given from the last to the first. -/
def dottedType (gap : String) : List String → Draft
  | [] => typeWord "" gap
  | [s] => typeWord s gap
  | s :: ss => node "scoped_type_identifier" [dottedType gap ss, sign ".", typeWord s]

/-- A parameter of a method. -/
def parameterOf (type : Draft) (name : String) : Draft :=
  node "formal_parameter" [under "type" type, under "name" (word name " ")]

/-- The arguments of a call. -/
def argumentsOf (ds : List Draft) : Draft := node "argument_list" (sign "(" :: separated ds ++ [sign ")"])

/-- A call without a receiver. -/
def callOf (name : String) (arguments : List Draft) (gap : String := "") : Draft :=
  node "method_invocation" [under "name" (word name gap), under "arguments" (argumentsOf arguments)]

/-- A call on a receiver. -/
def callOn (receiver : Draft) (name : String) (arguments : List Draft) : Draft :=
  node "method_invocation" [under "object" receiver, sign ".", under "name" (word name),
    under "arguments" (argumentsOf arguments)]

/-- An expression as a statement. -/
def asStatement (d : Draft) : Draft := node "expression_statement" [d, sign ";"]

/-- A statement that returns a value. -/
def returning (value : Draft) : Draft := node "return_statement" [sign "return" " ", value, sign ";"]

/-- A function without parameters. -/
def functionOf (body : Draft) (gap : String := "") : Draft :=
  node "lambda_expression" [under "parameters" (node "formal_parameters" [sign "(" gap, sign ")"]),
  sign "->" " ",
    under "body" body]

/-- The type of methods without a value. -/
def voidType (gap : String := " ") : Draft := leaf "void_type" true "void" gap

/-- A type of whole numbers. -/
def wholeType (gap : String := " ") : Draft := node "integral_type" [sign "int" gap]

/-- A comment up to the end of its line. -/
def lineComment (s gap : String) : Draft := leaf "line_comment" true s gap

/-- A comment between its marks. -/
def blockComment (s : String) (gap : String := "") : Draft := leaf "block_comment" true s gap

end Draft

-- ---------------------------------------------------------------------------
-- Libraries of texts
-- ---------------------------------------------------------------------------

/-- A text and what is reported of it. -/
structure Sample where
  chars : List Char
  root : Concrete

namespace Sample

/-- The text of a draft with its tree. What stands behind the last leaf is no part of any. -/
def ofDraft (d : Draft) (rest : String) : Sample :=
  match d.layOut {} 0 with
  | (cs, n, _, _) => ⟨cs ++ rest.toList, n⟩

/-- The text of a sample. -/
def text (s : Sample) : String := String.ofList s.chars

/-- Whether the sample is as relied on. -/
def isSound (s : Sample) : Bool :=
  !s.root.hasError && Concrete.isLaid {} s.chars (s.root.parts.flatMap Concrete.lexemes) &&
    s.root.inside.all Concrete.isRegular &&
    s.root.nodes.all fun n => (Text.slice? s.chars n.info.start n.info.stop).isSome

theorem ok_of_toOption {ε α : Type} {x : Except ε α} {a : α} (h : x.toOption = some a) : x = .ok a := by
  cases x with
  | error _ => cases h
  | ok _ => exact congrArg Except.ok (Option.some.inj h)

/-- What is reported of a text of which nothing is known. -/
def unknown : Concrete := .node ⟨"ERROR", 0, true, false, 0, 0, 0, 0⟩ []

/-- A library that knows some texts. -/
@[reducible] def library (ss : List Sample) : TreeSitter where
  root text := ((ss.find? (·.text == text)).map root).getD unknown

variable {ss : List Sample} {s : Sample}

theorem root_library (ss : List Sample) (text : String) :
    (library ss).root text = ((ss.find? (·.text == text)).map root).getD unknown := rfl

theorem root_cases (ss : List Sample) (text : String) :
    (library ss).root text = unknown ∨ ∃ s ∈ ss, s.text = text ∧ (library ss).root text = s.root := by
  rw [root_library]
  cases hFind : ss.find? (·.text == text) with
  | none => exact Or.inl rfl
  | some s => exact Or.inr ⟨s, List.mem_of_find?_eq_some hFind, by simpa using List.find?_some hFind, rfl⟩

/-- A library of sound samples keeps to what is relied on. -/
theorem lawful_library (h : ∀ s ∈ ss, s.isSound = true) : @LawfulTreeSitter (library ss) := by
  let _ := library ss
  have hSound {s : Sample} (hs : s ∈ ss) := h s hs
  simp only [isSound, Bool.and_eq_true, List.all_eq_true] at hSound
  refine ⟨fun {text} hNoError => ?_, fun {text} hNoError => ?_, fun {text} => ?_⟩
  · rcases root_cases ss text with hRoot | ⟨s, hs, rfl, hRoot⟩
    · rw [hRoot] at hNoError
      cases hNoError
    · refine ⟨[], s.chars, Or.inl rfl, by simp [Sample.text], ?_⟩
      rw [hRoot]
      exact Concrete.Laid.of_isLaid Spot.isBehind_nil (hSound hs).1.1.2
  · rcases root_cases ss text with hRoot | ⟨s, hs, rfl, hRoot⟩
    · rw [hRoot] at hNoError
      cases hNoError
    · rw [hRoot]
      exact fun n hn => Concrete.regular_of_isRegular ((hSound hs).1.2 n hn)
  · rcases root_cases ss text with hRoot | ⟨s, hs, rfl, hRoot⟩
    · rw [hRoot]
      intro n hn
      obtain rfl : n = unknown := by simpa [unknown, Concrete.nodes, Concrete.nodesOf] using hn
      rfl
    · rw [hRoot, Sample.text, String.toList_ofList]
      exact (hSound hs).2

theorem root_head (s : Sample) (ss : List Sample) : (library (s :: ss)).root s.text = s.root := by
  simp [root_library]

/-- What another sample is asked for is not this one. -/
theorem root_tail {t : Sample} (h : s.chars ≠ t.chars) :
    (library (s :: ss)).root t.text = (library ss).root t.text := by
  have hText : s.text ≠ t.text := fun hEq => h (by simpa [text] using congrArg String.toList hEq)
  simp [root_library, hText]

theorem noError_of_isSound (hSound : s.isSound = true) :
    ((library (s :: ss)).root s.text).hasError = false := by
  simp only [isSound, Bool.and_eq_true, Bool.not_eq_true'] at hSound
  rw [root_head, hSound.1.1.1]

/-- The unit of a sample. -/
def unit? (s : Sample) : Option Node := (TreeBuilder.unit s.chars s.root 0).map Prod.fst

/-- The text of a sample is parsed as its unit is made. -/
theorem parse_iff (hSound : s.isSound = true) {n : Node} :
    @Parsing.parse (library (s :: ss)) s.text = .ok n ↔ s.unit? = some n := by
  rw [@Parsing.parse_eq_ok_iff (library (s :: ss)), noError_of_isSound hSound, root_head, unit?, text,
    String.toList_ofList, Option.map_eq_some_iff]
  simp

end Sample

open Draft in
/-- An import, and a class with comments before it and before each of its members. -/
def remarked : Sample := .ofDraft (node "program" [
  importing ["AppenderSkeleton", "log4j", "apache", "org"],
  blockComment "/* class */" "\n",
  classOf "A" (typeWord "AppenderSkeleton" " ") (braced "class_body" [
    lineComment "// goes" "\n  ",
    methodOf (voidType "\n  ") "close" [] (braced "block" []),
    lineComment "// stays" "\n  ",
    fieldOf (wholeType "\n  ") "x"] " " "\n") " "]) "\n"

set_option maxRecDepth 100000 in
theorem isSound_remarked : remarked.isSound = true := by decide +kernel

end SourceMigration
