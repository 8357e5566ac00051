import SourceMigration.Parsing.Parser
import SourceMigration.Proofs.Parsing.Parsed
import SourceMigration.Proofs.Recipe.Downward
import SourceMigration.Proofs.Recipe.Outcome
import SourceMigration.Proofs.Typing.Annotated
import SourceMigration.Recipe.Appender

/-!
# SourceMigration — what the appender recipe makes of a unit

The appender recipe makes one visit and runs six passes. `Appender.migrated` says in one step what
a node has become after all of them: every class is edited by itself, after those within it, and
if some class of the unit was moved, every name and every call is edited by itself.

## Results

* `onTypes_companions`   — the passes together are one edit of names and calls.
* `ReadsTemplate`        — what is relied on of the library where the new supertype is read.
* `instantiate_template` — the template of the recipe can be instantiated.
* `exists_run`           — a run on a resolved unit succeeds, and its types are the migrated ones.
-/

namespace SourceMigration

namespace Appender

-- ---------------------------------------------------------------------------
-- Names and calls
-- ---------------------------------------------------------------------------

/-- The type that takes the place of a type. -/
def newType (t : TypeName) : TypeName :=
  if t = legacyEvent then event else if t = legacyLayout then layout else t

/-- The method that a call denotes after the migration. -/
def newMethod (m : MethodType) : MethodType :=
  { m with
    declaring := newType m.declaring
    name := if formatCalls.selects (some m) then "doLayout" else m.name
    returns := m.returns.map newType }

/-- A name of the migrated unit for a name that denotes `t`: as simple or as full as it was. -/
def newName (t : TypeName) (n : Node) : Node :=
  Node.ofDotted (if n.nameParts.length > 1 then t.text else t.simple) n.leading (some t)

/-- A name or a call after the migration. -/
def editLeaf (n : Node) : Node :=
  match n with
  | .branch (.name (some t)) _ =>
    if t = legacyEvent ∨ t = legacyLayout then newName (newType t) n else n
  | .branch (.call (some m)) cs =>
    let called := .branch (.call (some (newMethod m))) cs
    match n.tokenAt? .callee with
    | some t =>
      if formatCalls.selects (some m) then called.setField .callee (.token (t.withText "doLayout"))
      else called
    | none => called
  | _ => n

/-- A name of a type that the migration changes. -/
def isLegacyName : Node → Bool
  | .branch (.name (some t)) _ => t = legacyEvent || t = legacyLayout
  | _ => false

/-- A call that the migration renames. -/
def isFormatCall : Node → Bool
  | .branch (.call m) _ => formatCalls.selects m
  | _ => false

/-- Changing first the one type and then the other is putting the new types in their places. -/
theorem newType_eq (t : TypeName) :
    (if (if t = legacyEvent then event else t) = legacyLayout then layout
      else if t = legacyEvent then event else t) = newType t := by
  unfold newType
  by_cases hEvent : t = legacyEvent
  · simp [hEvent, event, legacyLayout]
  · simp [hEvent]

theorem newMethod_eq (m : MethodType) :
    Pass.retypedMethod legacyLayout layout
      (Pass.retypedMethod legacyEvent event (Pass.renamedMethod formatCalls "doLayout" m)) =
      newMethod m := by
  have hRenamed : Pass.renamedMethod formatCalls "doLayout" m =
      { m with name := if formatCalls.selects (some m) then "doLayout" else m.name } := by
    unfold Pass.renamedMethod
    split <;> rfl
  rw [hRenamed]
  have hReturns (a b : TypeName) (returns : Option TypeName) :
      (if returns = some a then some b else returns) = returns.map fun t => if t = a then b else t := by
    cases returns with
    | none => rfl
    | some t => by_cases h : t = a <;> simp [h]
  unfold Pass.retypedMethod newMethod
  simp only [newType_eq, hReturns, Option.map_map, Function.comp_def]

/-- A name stays as it is unless it is a name of a legacy type. -/
theorem editLeaf_name (t : Option TypeName) (ts : List Token) :
    editLeaf (Node.nameOf t ts) =
      match t with
      | some t => if isLegacyName (Node.nameOf (some t) ts) then
          newName (newType t) (Node.nameOf (some t) ts) else Node.nameOf (some t) ts
      | none => Node.nameOf none ts := by
  cases t with
  | none => rfl
  | some t => simp [Node.nameOf, editLeaf, isLegacyName]

/-- A name becomes a name of the new type. -/
theorem exists_editLeaf_name (t : Option TypeName) (ts : List Token) :
    ∃ ts', editLeaf (Node.nameOf t ts) = Node.nameOf (t.map newType) ts' := by
  rw [editLeaf_name]
  cases t with
  | none => exact ⟨ts, rfl⟩
  | some t =>
    by_cases hName : isLegacyName (Node.nameOf (some t) ts) = true
    · simp only [hName, if_true, Option.map_some]
      exact ⟨_, rfl⟩
    · simp only [hName]
      obtain ⟨hEvent, hLayout⟩ : t ≠ legacyEvent ∧ t ≠ legacyLayout := by
        simpa [Node.nameOf, isLegacyName] using hName
      exact ⟨ts, by simp [newType, hEvent, hLayout]⟩

/-- A call denotes the new method, and is spelled anew if it formats. -/
theorem editLeaf_call (m : Option MethodType) (t : Token) :
    editLeaf (.branch (.call m) [(.callee, .token t)]) =
      .branch (.call (m.map newMethod))
        [(.callee, .token (if formatCalls.selects m then t.withText "doLayout" else t))] := by
  cases m with
  | none => rfl
  | some m =>
    by_cases hCall : formatCalls.selects (some m) = true
    · simp [editLeaf, Node.tokenAt?, Node.field?, filed_cons, hCall, Node.setField,
        replaceFirst_cons]
    · simp [editLeaf, Node.tokenAt?, Node.field?, filed_cons, hCall]

/-- Names and calls are as well-formed after their edit as before. -/
theorem wellFormed_editLeaf {k : NodeKind} {cs : List (Field × Node)} (hk : k.isLeaf = true)
    (h : (Node.branch k cs).WellFormed) : (editLeaf (.branch k cs)).WellFormed := by
  rcases Pass.exists_of_leaf hk h with ⟨t, ts, hEq⟩ | ⟨m, t, hEq⟩
  · obtain ⟨ts', hEdit⟩ := exists_editLeaf_name t ts
    rw [hEq, hEdit]
    exact Node.wellFormed_nameOf _ _
  · rw [hEq, editLeaf_call]
    exact Node.wellFormed_call _ _

/-- The passes together are one edit of names and calls. -/
theorem onTypes_companions {n : Node} (h : n.WellFormed) :
    Pass.onTypes companions n = n.mapLeaves editLeaf := by
  simp only [companions, Pass.onTypes, Pass.onType, id, Node.mapLeaves_mapLeaves]
  refine Node.mapLeaves_congr ?_ h
  intro k cs hk hFine
  rcases Pass.exists_of_leaf hk hFine with ⟨t, ts, hEq⟩ | ⟨m, t, hEq⟩
  · rw [hEq]
    have hName {t : Option TypeName} {cs : List (Field × Node)} (f : Node → Node) :
        (Node.branch (.name t) cs).mapLeaves f = f (.branch (.name t) cs) := Node.mapLeaves_leaf rfl
    by_cases hEvent : t = some legacyEvent
    · subst hEvent
      simp [Node.nameOf, hName, Pass.retypedName_name, Node.ofDotted, editLeaf, newName, newType,
        legacyLayout, event]
    · by_cases hLayout : t = some legacyLayout
      · subst hLayout
        simp [Node.nameOf, hName, Pass.retypedName_name, Node.ofDotted, editLeaf, newName, newType,
          legacyLayout, legacyEvent]
      · cases t with
        | none => simp [Node.nameOf, hName, Pass.retypedName_name, editLeaf]
        | some t =>
          simp only [Option.some.injEq] at hEvent hLayout
          simp [Node.nameOf, hName, Pass.retypedName_name, editLeaf, hEvent, hLayout]
  · rw [hEq]
    have hCall {m : Option MethodType} {cs : List (Field × Node)} (f : Node → Node) :
        (Node.branch (.call m) cs).mapLeaves f = f (.branch (.call m) cs) := Node.mapLeaves_leaf rfl
    simp only [hCall, Pass.renamedCall_call, Pass.retypedName_call, Pass.retypedCall_call]
    cases m with
    | none => rfl
    | some m =>
      simp only [Option.map_some, newMethod_eq, editLeaf, Node.tokenAt?, Node.field?]
      by_cases hSelects : formatCalls.selects (some m) = true
      · simp [hSelects, filed_cons, Node.setField, replaceFirst_cons]
      · simp [hSelects, filed_cons]

-- ---------------------------------------------------------------------------
-- Classes
-- ---------------------------------------------------------------------------

/-- The supertype that takes the place of the old one. -/
def newSupertype : Node :=
  .branch .parameterized
    [(.base, Node.nameOf (some base) [⟨.identifier, "AppenderBase", "", 1, 20⟩]),
      (.arguments, .token ⟨.operator, "<", "", 1, 32⟩),
      (.arguments, Node.nameOf (some event) [⟨.identifier, "ILoggingEvent", "", 1, 33⟩]),
      (.arguments, .token ⟨.operator, ">", "", 1, 46⟩)]

/-- What the grammar makes of the template: a generic type with one argument. The numbers that nodes are told
from one another by are any. -/
def templateType (a b c d e f : Nat) : Concrete :=
  .node ⟨"generic_type", a, true, false, 19, 46, 0, 19⟩
    [(none, .node ⟨"type_identifier", b, true, false, 19, 31, 0, 19⟩ []),
      (none, .node ⟨"type_arguments", c, true, false, 31, 46, 0, 31⟩
        [(none, .node ⟨"<", d, false, false, 31, 32, 0, 31⟩ []),
          (none, .node ⟨"type_identifier", e, true, false, 32, 45, 0, 32⟩ []),
          (none, .node ⟨">", f, false, false, 45, 46, 0, 45⟩ [])])]

/-- A library that finds in the template what the grammar makes of it. -/
class ReadsTemplate [TreeSitter] : Prop where
  accepted :
    (TreeSitter.root (Parsing.holderFront ++ recipe.change.template ++ Parsing.holderBack)).hasError = false
  found : ∃ a b c d e f,
    Parsing.holderFieldType?
        (TreeSitter.root (Parsing.holderFront ++ recipe.change.template ++ Parsing.holderBack)) =
      some (some (templateType a b c d e f))

/-- The supertype of the template before its names have meanings. -/
def plainSupertype : Node :=
  .branch .parameterized
    [(.base, Node.nameOf none [⟨.identifier, "AppenderBase", "", 1, 20⟩]),
      (.arguments, .token ⟨.operator, "<", "", 1, 32⟩),
      (.arguments, Node.nameOf none [⟨.identifier, "ILoggingEvent", "", 1, 33⟩]),
      (.arguments, .token ⟨.operator, ">", "", 1, 46⟩)]

/-- The class that is made up for the template. -/
theorem toList_holder :
    (Parsing.holderFront ++ recipe.change.template ++ Parsing.holderBack).toList =
      ['c', 'l', 'a', 's', 's', ' ', 'T', 'y', 'p', 'e', 'H', 'o', 'l', 'd', 'e', 'r', ' ', '\x7b', ' ',
        'A', 'p', 'p', 'e', 'n', 'd', 'e', 'r', 'B', 'a', 's', 'e', '<',
        'I', 'L', 'o', 'g', 'g', 'i', 'n', 'g', 'E', 'v', 'e', 'n', 't', '>',
        ' ', 'v', 'a', 'l', 'u', 'e', ';', ' ', '\x7d'] := by
  simp [Parsing.holderFront, Parsing.holderBack, recipe]

theorem singleType_template [TreeSitter] [ReadsTemplate] :
    Parsing.SingleType recipe.change.template plainSupertype := by
  obtain ⟨a, b, c, d, e, f, hFound⟩ := ReadsTemplate.found
  have hStart : 19 = Parsing.holderFront.utf8ByteSize := by decide
  have hStop : 46 = Parsing.holderFront.utf8ByteSize + recipe.change.template.utf8ByteSize := by decide
  refine ⟨ReadsTemplate.accepted, _, hFound, hStart, hStop, rfl, 46, ?_⟩
  rw [toList_holder]
  with_unfolding_all rfl

/-- The template of the recipe can be instantiated. -/
theorem instantiate_template [TreeSitter] [ReadsTemplate] :
    Template.instantiate recipe.change.template recipe.change.types = .ok newSupertype := by
  have hStrip : Text.strip recipe.change.template = recipe.change.template := by decide +kernel
  unfold Template.instantiate
  rw [hStrip, Parsing.parseType_eq_ok_iff.mpr singleType_template]
  decide +kernel

theorem wellFormed_newSupertype : newSupertype.WellFormed := by
  refine .branch ?_ ?_
  · refine .single (s := ⟨.base, .one, [.name]⟩) (by simp) (by decide) ?_
    exact fills_only (s := ⟨.arguments, .many, elementForms⟩) rfl (by decide)
  · intro c hc
    simp only [List.mem_cons, List.not_mem_nil, or_false] at hc
    rcases hc with rfl | rfl | rfl | rfl
    · exact Node.wellFormed_nameOf _ _
    · exact .token _
    · exact Node.wellFormed_nameOf _ _
    · exact .token _

-- ---------------------------------------------------------------------------
-- The migration of a node
-- ---------------------------------------------------------------------------

/-- What the migration makes of a node, where `moved` tells whether some class of the unit is moved. -/
def migrated (moved : Bool) (n : Node) : Node :=
  let n := recipe.visited newSupertype n
  if moved then n.mapLeaves editLeaf else n

section Below

variable (moved : Bool)

theorem migrated_token (t : Token) : migrated moved (.token t) = .token t := by
  unfold migrated
  rw [Recipe.visited]
  cases moved <;> rfl

theorem migrated_branch {k : NodeKind} (hLeaf : k.isLeaf = false) (hk : k ≠ .typeDeclaration)
    (cs : List (Field × Node)) :
    migrated moved (.branch k cs) = .branch k (cs.map fun c => (c.1, migrated moved c.2)) := by
  unfold migrated
  rw [recipe.visited_branch newSupertype hk]
  cases moved with
  | false => rfl
  | true =>
    simp only [if_true]
    rw [Node.mapLeaves_branch hLeaf, List.map_map]
    rfl

/-- The migration of a class migrates what is left of the class after its edit. -/
theorem migrated_declaration {p : ClassParts} (h : p.WellFormed) :
    migrated moved p.toNode = .branch .typeDeclaration
      ((recipe.editParts newSupertype p).children.map fun c => (c.1, migrated moved c.2)) := by
  unfold migrated
  rw [recipe.visited_declaration wellFormed_newSupertype (by decide) h]
  cases moved with
  | false => rfl
  | true =>
    simp only [if_true]
    rw [Node.mapLeaves_branch rfl, List.map_map]
    rfl

/-- The edit of a name or a call leaves its form alone. -/
theorem form_editLeaf (n : Node) : (editLeaf n).form = n.form := by
  cases n with
  | token t => rfl
  | branch k cs =>
    cases k with
    | name t =>
      cases t with
      | none => rfl
      | some t =>
        rw [editLeaf]
        split <;> rfl
    | call m =>
      cases m with
      | none => rfl
      | some m =>
        simp only [editLeaf]
        split
        · split <;> rfl
        · rfl
    | _ => rfl

/-- The migration goes on below everything but names, calls and type declarations. -/
theorem descends_migrated : Descends (migrated moved) where
  token := migrated_token moved
  form n := by
    unfold migrated
    rw [← (recipe.descends_visited newSupertype).form n]
    generalize recipe.visited newSupertype n = m
    cases moved with
    | false => rfl
    | true =>
      cases m with
      | token t => rfl
      | branch k cs =>
        by_cases hk : k.isLeaf = true
        · simp only [if_true, Node.mapLeaves_leaf hk, form_editLeaf]
        · simp only [if_true, Node.mapLeaves_branch (by simpa using hk)]
          rfl
  branch k cs hLeaf hk := migrated_branch moved hLeaf hk cs

/-- The migration of a class is made of what the migration makes of its parts after its edit. -/
theorem migrated_toNode {p : ClassParts} (h : p.WellFormed) :
    migrated moved p.toNode = ((recipe.editParts newSupertype p).map (migrated moved)).toNode := by
  rw [migrated_declaration moved h, ClassParts.toNode,
    ClassParts.children_map (descends_migrated moved)]

/-- The migration of a name or a call is its edit. -/
theorem migrated_leaf {k : NodeKind} {cs : List (Field × Node)} (hk : k.isLeaf = true)
    (h : (Node.branch k cs).WellFormed) :
    migrated moved (.branch k cs) =
      if moved then editLeaf (.branch k cs) else .branch k cs := by
  have hVisited : recipe.visited newSupertype (.branch k cs) = .branch k cs := by
    rw [recipe.visited_branch newSupertype (by rintro rfl; cases hk)]
    congr 1
    refine (List.map_congr_left fun c hc => ?_).trans (List.map_id cs)
    obtain ⟨t, ht⟩ := h.token_of_leaf hk hc
    rw [ht, Recipe.visited, ← ht]
    rfl
  unfold migrated
  rw [hVisited]
  cases moved with
  | false => rfl
  | true => exact Node.mapLeaves_leaf hk

end Below

/-- Induction over well-formed nodes, where what is below a class is what is left of it after its
edit by the recipe. -/
theorem induct_migrated {P : Node → Prop} (token : ∀ t, P (.token t))
    (branch : ∀ k cs, k ≠ .typeDeclaration → (Node.branch k cs).WellFormed →
      (∀ c ∈ cs, P c.2) → P (.branch k cs))
    (declaration : ∀ p : ClassParts, p.WellFormed →
      (∀ c ∈ (recipe.editParts newSupertype p).children, P c.2) → P p.toNode)
    {n : Node} (h : n.WellFormed) : P n := by
  have hLeaf {t : Option TypeName} (ts : List Token) : P (Node.nameOf t ts) := by
    refine branch _ _ (by simp) (Node.wellFormed_nameOf t ts) ?_
    intro c hc
    obtain ⟨u, -, rfl⟩ := List.mem_map.mp hc
    exact token u
  refine recipe.induct_edited ⟨by decide, wellFormed_newSupertype⟩ ?_ token branch declaration h
  intro l
  have hFine := wellFormed_newSupertype.withLeading l
  refine branch _ _ (by simp) hFine ?_
  intro c hc
  simp only [Node.withLeadingIn, List.mem_cons, List.not_mem_nil, or_false] at hc
  rcases hc with rfl | rfl | rfl | rfl
  · exact hLeaf [⟨.identifier, "AppenderBase", l, 1, 20⟩]
  · exact token _
  · exact hLeaf _
  · exact token _

-- ---------------------------------------------------------------------------
-- Units
-- ---------------------------------------------------------------------------

/-- Whether some class of a unit is moved. -/
def moves (unit : Node) : Bool := unit.walk.any (Supertype.isOf skeleton)

end Appender

/-- The unit of a text with the meanings that the classpath gives its names, if the text is a unit. -/
def resolve [TreeSitter] (classpath : Classpath) (text : String) : Except Refusal Node :=
  (Parsing.parse text).map fun unit => (Attribution.ofUnit classpath unit).value

/-- A fresh unit is made of sound parts once it is attributed. -/
theorem sound_ofUnit (classpath : Classpath) {tree : Node} (h : tree.Fresh) :
    ∃ p : UnitParts, (Attribution.ofUnit classpath tree).value = p.toUnit ∧ p.Sound := by
  obtain ⟨cs, s, -, -, hValue⟩ := Attribution.exists_of_ofUnit classpath h.wellFormed h.isUnit
  have hFine := Attribution.wellFormed_ofUnit classpath h.wellFormed
  have hPackage := Attribution.package_ofUnit classpath h.wellFormed h.isUnit
  generalize (Attribution.ofUnit classpath tree).value = unit at hValue hFine hPackage
  generalize (Attribution.ofChildren s false cs).value = ds at hValue
  subst hValue
  have hFormed := UnitParts.formed_of_wellFormed hFine
  refine ⟨(Node.branch .unit ds).unitParts, hFine.toUnit_unitParts.symm, ?_, hFormed.imports,
    hFormed.types, hFormed.endMarker⟩
  intro n hn
  obtain ⟨hForms, hChild⟩ := hFormed.package n hn
  refine ⟨hForms, hChild, ?_⟩
  have hMem : n ∈ filed .package ds := List.mem_of_head? hn
  rw [← Node.field_branch .unit, hPackage] at hMem
  cases h.bare with
  | token t => cases hMem
  | branch _ hChildren => exact hChildren _ (mem_of_mem_filed hMem)

/-- A resolved unit is a parsed one with meanings attached. -/
theorem exists_tree_of_resolve [TreeSitter] {classpath : Classpath} {text : String} {unit : Node}
    (h : resolve classpath text = .ok unit) :
    ∃ tree, Parsing.parse text = .ok tree ∧ (Attribution.ofUnit classpath tree).value = unit := by
  unfold resolve at h
  cases hParse : Parsing.parse text with
  | error why =>
    rw [hParse] at h
    cases h
  | ok tree =>
    rw [hParse] at h
    exact ⟨tree, rfl, Except.ok.inj h⟩

/-- A resolved unit is made of sound parts, and its text is the text it was read from. -/
theorem exists_parts_of_resolve [TreeSitter] [LawfulTreeSitter] {classpath : Classpath} {text : String}
    {unit : Node} (h : resolve classpath text = .ok unit) :
    ∃ p : UnitParts, unit = p.toUnit ∧ p.Sound ∧ unit.WellFormed ∧ unit.text = text := by
  obtain ⟨tree, hParse, rfl⟩ := exists_tree_of_resolve h
  have hFresh := Parsing.fresh_of_parse hParse
  obtain ⟨p, hp, hSound⟩ := sound_ofUnit classpath hFresh
  refine ⟨p, hp, hSound, Attribution.wellFormed_ofUnit classpath hFresh.wellFormed, ?_⟩
  rw [Node.text, Attribution.tokens_ofUnit classpath hFresh.wellFormed hFresh.isUnit]
  exact Parsing.text_of_parse hParse

namespace Appender

/-- What comes of a run on a resolved unit. -/
theorem exists_run [TreeSitter] [ReadsTemplate] {p : UnitParts} (hp : p.Sound)
    (hUnit : p.toUnit.WellFormed) (j : Journal) :
    ∃ (q : UnitParts) (changed : Bool),
      (recipe.run p.toUnit j).1 = .ok ⟨q.toUnit, changed⟩ ∧ q.Sound ∧
      (Gate.applies skeleton p.toUnit = false → q = p ∧ changed = false) ∧
      (Gate.applies skeleton p.toUnit = true →
        (p.toUnit.walk.any Supertype.isKnown = true → changed = true) ∧
        (moves p.toUnit = false → q = p.mapTypes (migrated false)) ∧
        (moves p.toUnit = true → (p.mapTypes (migrated true)).Reimports q)) := by
  by_cases hGate : Gate.applies skeleton p.toUnit = true
  · have hTree : newSupertype.form ∈ [Form.name, .parameterized] ∧ newSupertype.WellFormed :=
      ⟨by decide, wellFormed_newSupertype⟩
    obtain ⟨q, changed, hRun, hChanged, hSound, hTypes⟩ :=
      Recipe.run_of_gate (r := recipe) hp hUnit instantiate_template hTree (by decide) hGate j
    refine ⟨q, changed, hRun, hSound, by simp [hGate], fun _ => ⟨hChanged, ?_, ?_⟩⟩
    · intro hMoves
      rw [show p.toUnit.walk.any (Supertype.isOf recipe.legacy) = false from hMoves] at hTypes
      exact hTypes
    · intro hMoves
      rw [show p.toUnit.walk.any (Supertype.isOf recipe.legacy) = true from hMoves,
        if_pos rfl] at hTypes
      have hAll : (p.mapTypes (migrated true)) = p.mapTypes fun n =>
          Pass.onTypes recipe.change.companions (recipe.visited newSupertype n) := by
        unfold UnitParts.mapTypes
        congr 1
        refine List.map_congr_left fun n hn => ?_
        have hFine := recipe.wellFormed_visited newSupertype hTree (hp.types n hn).2
        exact (onTypes_companions hFine).symm
      rw [hAll]
      exact hTypes
  · have hNot : Gate.applies skeleton p.toUnit = false := by simpa using hGate
    exact ⟨p, false, Recipe.run_of_not_gate (r := recipe) hNot j, hp, fun _ => ⟨rfl, rfl⟩,
      fun h => absurd h hGate⟩

end Appender

-- ---------------------------------------------------------------------------
-- Samples
-- ---------------------------------------------------------------------------

open Draft in
/-- The class that is made up for the template. -/
def holder : Sample := .ofDraft (node "program" [
  classOf "TypeHolder" none (braced "class_body" [
    node "field_declaration" [
      under "type" (node "generic_type" [typeWord "AppenderBase" " ",
        node "type_arguments" [sign "<", typeWord "ILoggingEvent", sign ">"]]),
      under "declarator" (node "variable_declarator" [under "name" (word "value" " ")]), sign ";"]])]) ""

namespace Sample

theorem isSound_holder : holder.isSound = true := by decide +kernel

theorem text_holder :
    holder.text = Parsing.holderFront ++ Appender.recipe.change.template ++ Parsing.holderBack := by
  have hChars : holder.chars =
      (Parsing.holderFront ++ Appender.recipe.change.template ++ Parsing.holderBack).toList := by
    rw [Appender.toList_holder]
    decide +kernel
  rw [text, hChars, String.ofList_toList]

/-- A library that knows one text and the class of the template keeps to what is said of it. -/
theorem lawful_holder {s : Sample} (h : s.isSound = true) : @LawfulTreeSitter (library [s, holder]) :=
  lawful_library (List.forall_mem_cons.mpr ⟨h, List.forall_mem_singleton.mpr isSound_holder⟩)

/-- It also reads the template. -/
theorem readsTemplate_holder {s : Sample} (h : s.chars ≠ holder.chars) :
    @Appender.ReadsTemplate (library [s, holder]) := by
  let _ := library [s, holder]
  have hRoot : TreeSitter.root holder.text = holder.root := (root_tail h).trans (root_head holder [])
  rw [text_holder] at hRoot
  refine ⟨?_, ?_⟩
  · rw [hRoot]
    decide +kernel
  · rw [hRoot]
    exact ⟨7, 8, 9, 10, 11, 12, by with_unfolding_all rfl⟩

/-- The unit of a sample with the meanings that the classpath gives its names. -/
def resolved? (s : Sample) (classpath : Classpath) : Option Node :=
  s.unit?.map fun unit => (Attribution.ofUnit classpath unit).value

theorem wellFormed_of_resolved {s : Sample} (hSound : s.isSound = true) {classpath : Classpath} {unit : Node}
    (h : s.resolved? classpath = some unit) : unit.WellFormed ∧ unit.form = .unit := by
  obtain ⟨tree, hTree, rfl⟩ := Option.map_eq_some_iff.mp h
  have hFresh := Parsing.fresh_of_sample hSound hTree
  obtain ⟨p, hp, -⟩ := sound_ofUnit classpath hFresh
  exact ⟨Attribution.wellFormed_ofUnit classpath hFresh.wellFormed, hp ▸ rfl⟩

/-- The text of a sample is resolved as its unit is. -/
theorem resolve_iff {s : Sample} {ss : List Sample} (hSound : s.isSound = true)
    {classpath : Classpath} {n : Node} :
    @resolve (library (s :: ss)) classpath s.text = .ok n ↔ s.resolved? classpath = some n := by
  let _ := library (s :: ss)
  constructor
  · intro h
    obtain ⟨tree, hParse, rfl⟩ := exists_tree_of_resolve h
    exact Option.map_eq_some_iff.mpr ⟨tree, (parse_iff hSound).mp hParse, rfl⟩
  · intro h
    obtain ⟨tree, hTree, rfl⟩ := Option.map_eq_some_iff.mp h
    rw [resolve, (parse_iff hSound).mpr hTree]
    rfl

theorem remarked_ne_holder : remarked.chars ≠ holder.chars := by decide +kernel

open Appender in
set_option maxRecDepth 100000 in
theorem moves_remarked : ((remarked.resolved? ⟨defaultStubs⟩).map fun unit =>
    (Gate.applies skeleton unit, moves unit)) = some (true, true) := by decide +kernel

/-- What a run makes of the class with comments. -/
def rebased : String :=
  "import ch.qos.logback.classic.spi.ILoggingEvent;\nimport ch.qos.logback.core.AppenderBase;\n" ++
    "/* class */ class A extends AppenderBase<ILoggingEvent> \x7b\n  // stays\n  int x;\n\x7d\n"

open Appender in
set_option maxRecDepth 100000 in
theorem run_remarked : letI := library [remarked, holder]
    ∃ unit result, remarked.resolved? ⟨defaultStubs⟩ = some unit ∧ (recipe.run unit {}).1 = .ok result ∧
      result.changed = true ∧ result.node.text = rebased ∧
      result.node.walk.any (·.denoted? == some base) = true := by
  let _ := library [remarked, holder]
  have hSome : ((remarked.resolved? ⟨defaultStubs⟩).bind fun unit =>
      (recipe.run unit {}).1.toOption.map fun result =>
        (result.changed, result.node.text, result.node.walk.any (·.denoted? == some base))) =
      some (true, rebased, true) := by
    decide +kernel
  obtain ⟨unit, hUnit, hSome⟩ := Option.bind_eq_some_iff.mp hSome
  obtain ⟨result, hResult, hSome⟩ := Option.map_eq_some_iff.mp hSome
  simp only [Prod.mk.injEq] at hSome
  exact ⟨unit, result, hUnit, ok_of_toOption hResult, hSome⟩

end Sample

end SourceMigration
