import Mathlib.Data.List.Forall2
import SourceMigration.Proofs.Tree.Fronted

/-!
# SourceMigration — sturdy trees

More is true of the trees of a migration than that their children fill slots. A name is a chain, and
where it denotes a type, it is spelled by the full name of the type or by the end of it. A statement
has elements, a method has a body or ends without one, and braces stand around blocks and the bodies
of classes. A tree of which all this holds is sturdy.

Trees stay sturdy under what is done to them: the children of a node may be exchanged for others like
them, and a node for another of its form.

## Results

* `sturdy_nameOf`       — a chain that spells what it denotes is a sturdy name.
* `Sturdy.follow`       — the children of a node are exchanged for others of their form.
* `Sturdy.withLeading`  — other trivia before a node.
* `sturdy_replaceAll`   — nodes are replaced by sturdy ones of their form.
* `exists_sturdy`, `sturdy_unitParts` — sturdy classes and units are made of sturdy parts.
-/

namespace SourceMigration

-- ---------------------------------------------------------------------------
-- Spelling
-- ---------------------------------------------------------------------------

namespace TypeName

/-- A type is spelled by its full name, and by whatever stands behind a point of it. -/
def SpelledBy (t : TypeName) (spelling : String) : Prop :=
  t.text = spelling ∨ ∃ front, t.text = front ++ "." ++ spelling

theorem spelledBy_member (owner name : String) : (member owner name).SpelledBy name := by
  unfold member
  split
  · exact Or.inl rfl
  · exact Or.inr ⟨owner, rfl⟩

/-- A type is spelled by its simple name. -/
theorem spelledBy_simple (t : TypeName) : t.SpelledBy t.simple := by
  unfold simple Text.lastPart
  have hSplit := List.takeWhile_append_dropWhile (p := (· != '.')) (l := t.text.toList.reverse)
  cases hRest : t.text.toList.reverse.dropWhile (· != '.') with
  | nil =>
    rw [hRest, List.append_nil] at hSplit
    exact Or.inl (by rw [hSplit, List.reverse_reverse, String.ofList_toList])
  | cons c cs =>
    have hPoint : c = '.' := by
      have := List.head?_dropWhile_not (· != '.') t.text.toList.reverse
      rw [hRest] at this
      simpa using this
    subst hPoint
    refine Or.inr ⟨String.ofList cs.reverse, ?_⟩
    rw [hRest] at hSplit
    have hText : t.text.toList = cs.reverse ++ '.' ::
        (t.text.toList.reverse.takeWhile (· != '.')).reverse := by
      rw [← List.reverse_reverse t.text.toList]
      conv_lhs => rw [← hSplit]
      simp
    apply String.toList_injective
    simpa using hText

/-- A member of a type is spelled by the spellings of the type followed by its own name. -/
theorem SpelledBy.member {t : TypeName} {head : String} (h : t.SpelledBy head) (next : String)
    (rest : List String) :
    (TypeName.mk (Text.joinDots (t.text :: next :: rest))).SpelledBy
      (Text.joinDots (head :: next :: rest)) := by
  rw [Text.joinDots_cons_cons, Text.joinDots_cons_cons]
  rcases h with h | ⟨front, h⟩
  · exact Or.inl (by rw [h])
  · exact Or.inr ⟨front, by simp [h, String.append_assoc]⟩

end TypeName

namespace Node

/-- Whatever a name denotes is spelled by it. -/
def WellSpelled (n : Node) : Prop :=
  ∀ t cs, n = .branch (.name (some t)) cs → t.SpelledBy n.dottedName

theorem wellSpelled_of_form {n : Node} (h : n.form ≠ .name) : n.WellSpelled := by
  rintro t cs rfl
  exact absurd rfl h

end Node

-- ---------------------------------------------------------------------------
-- Sturdy nodes
-- ---------------------------------------------------------------------------

/-- A token that is a given sign. -/
def Token.isSign (sign : String) (t : Token) : Prop := t.kind = .operator ∧ t.text = sign

/-- One sign stands in a field, and nothing else. -/
def HasSign (f : Field) (sign : String) (cs : List (Field × Node)) : Prop :=
  ∃ t : Token, filed f cs = [.token t] ∧ t.isSign sign

/-- What the children of a node satisfy besides filling its slots. -/
def NodeKind.Intact : NodeKind → List (Field × Node) → Prop
  | .name _, cs => Chain (Node.tokensOf cs)
  | .statement, cs => cs ≠ []
  | .method, cs => (filed .body cs).length + (filed .terminator cs).length = 1
  | .block, cs | .classBody, cs => HasSign .opening "\x7b" cs ∧ HasSign .closing "\x7d" cs
  | _, _ => True

namespace Node

/-- The children of a node fill its slots and satisfy what else is asked of them, and what a name
denotes is spelled by it, here and below. -/
inductive Sturdy : Node → Prop where
  | token (t : Token) : Sturdy (.token t)
  | branch {k : NodeKind} {cs : List (Field × Node)} (hFills : Fills k.slots (cs.map tag) [])
      (hIntact : k.Intact cs) (hSpelled : (Node.branch k cs).WellSpelled)
      (hChildren : ∀ c ∈ cs, Sturdy c.2) : Sturdy (.branch k cs)

namespace Sturdy

variable {k : NodeKind} {cs ds : List (Field × Node)} {n : Node}

theorem wellFormed (h : n.Sturdy) : n.WellFormed := by
  induction h with
  | token t => exact .token t
  | branch hFills _ _ _ ih => exact .branch hFills ih

/-- A node that is no name has nothing to spell. -/
theorem plain (hk : k.form ≠ .name) (hFills : Fills k.slots (cs.map tag) []) (hIntact : k.Intact cs)
    (hChildren : ∀ c ∈ cs, c.2.Sturdy) : Sturdy (.branch k cs) :=
  .branch hFills hIntact (wellSpelled_of_form hk) hChildren

theorem intact (h : Sturdy (.branch k cs)) : k.Intact cs := by
  cases h with
  | branch _ hIntact _ _ => exact hIntact

theorem wellSpelled (h : n.Sturdy) : n.WellSpelled := by
  cases h with
  | token t => rintro _ _ ⟨⟩
  | branch _ _ hSpelled _ => exact hSpelled

theorem child (h : Sturdy (.branch k cs)) {c : Field × Node} (hc : c ∈ cs) : c.2.Sturdy := by
  cases h with
  | branch _ _ _ hChildren => exact hChildren c hc

theorem child_of_mem (h : n.Sturdy) {c : Field × Node} (hc : c ∈ n.children) : c.2.Sturdy := by
  cases n with
  | token t => cases hc
  | branch k cs => exact h.child hc

/-- A sturdy tree is sturdy below. -/
theorem walk (h : n.Sturdy) : ∀ m ∈ n.walk, m.Sturdy := by
  induction h with
  | token t =>
    intro m hm
    rw [Node.walk, List.mem_singleton] at hm
    exact hm ▸ .token t
  | @branch k cs hFills hIntact hSpelled hChildren ih =>
    intro m hm
    rw [Node.walk, Node.walkOf_eq, List.mem_cons, List.mem_flatMap] at hm
    rcases hm with rfl | ⟨c, hc, hm⟩
    · exact .branch hFills hIntact hSpelled hChildren
    · exact ih c hc m hm

/-- The names in a sturdy tree are chains. -/
theorem chained (h : n.Sturdy) : n.Chained := by
  induction h with
  | token t => exact .token t
  | @branch k cs _ hIntact _ _ ih =>
    refine .branch (fun hName => ?_) ih
    cases k with
    | name t => exact hIntact
    | _ => cases hName

end Sturdy

-- ---------------------------------------------------------------------------
-- Names
-- ---------------------------------------------------------------------------

theorem sturdy_nameOf {type : Option TypeName} {ts : List Token} (h : Chain ts)
    (hType : ∀ t ∈ type, t.SpelledBy (nameOf none ts).dottedName) : (nameOf type ts).Sturdy := by
  refine .branch (wellFormed_nameOf type ts).fills ?_ ?_ ?_
  · show Chain (nameOf type ts).tokens
    rwa [tokens_nameOf]
  · intro t cs hName
    exact hType t (by simpa using (Node.branch.inj hName).1)
  · intro c hc
    obtain ⟨t, -, rfl⟩ := List.mem_map.mp hc
    exact .token t

/-- A sturdy name is a chain that spells what it denotes. -/
theorem Sturdy.exists_chain {type : Option TypeName} {cs : List (Field × Node)}
    (h : Sturdy (.branch (.name type) cs)) :
    ∃ ts, cs = ts.map (fun t => (.tokens, .token t)) ∧ Chain ts ∧
      ∀ t ∈ type, t.SpelledBy (nameOf none ts).dottedName := by
  obtain ⟨ts, rfl⟩ := h.wellFormed.exists_tokens
  refine ⟨ts, rfl, ?_, ?_⟩
  · have hChain : Chain (nameOf type ts).tokens := h.intact
    rwa [tokens_nameOf] at hChain
  · rintro t rfl
    exact h.wellSpelled t _ rfl

theorem chain_nameTokens (l part : String) (parts : List String) :
    Chain (nameTokens l (part :: parts)) := by
  induction parts generalizing l part with
  | nil => exact ⟨Token.identifier part l, [], rfl, rfl, .nil⟩
  | cons next parts ih =>
    obtain ⟨t, links, hEq, ht, hLinks⟩ := ih "" next
    refine ⟨Token.identifier part l, Token.operator "." :: t :: links, ?_, rfl,
      .cons ⟨rfl, rfl⟩ ht hLinks⟩
    rw [nameTokens, hEq]
    simp

/-- The parts that the tokens of a name are made from are its parts. -/
theorem nameParts_nameTokens (type : Option TypeName) (l : String) (parts : List String) :
    (nameOf type (nameTokens l parts)).nameParts = parts := by
  rw [nameParts_nameOf]
  induction parts generalizing l with
  | nil => rfl
  | cons part parts ih =>
    cases parts with
    | nil => simp [nameTokens, Token.identifier]
    | cons next parts =>
      have hRest := ih ""
      rw [nameTokens]
      · simp [Token.identifier, Token.operator, hRest]
      · simp

/-- A name made for a dotted spelling is spelled so. -/
theorem dottedName_ofDotted (dotted l : String) (type : Option TypeName) :
    (ofDotted dotted l type).dottedName = dotted := by
  have hParts : (ofDotted dotted l type).nameParts = Text.splitDots dotted :=
    nameParts_nameTokens type l _
  have hJoin (ps : List (List Char)) :
      (Text.joinDots (ps.map String.ofList)).toList = ['.'].intercalate ps := by
    induction ps with
    | nil => rfl
    | cons p ps ih =>
      cases ps with
      | nil => simp [Text.joinDots, List.intercalate]
      | cons q ps =>
        have hDot : ".".toList = ['.'] := rfl
        rw [List.map_cons, List.map_cons, Text.joinDots_cons_cons, ← List.map_cons,
          String.toList_append, String.toList_append, ih, hDot]
        simp [List.intercalate]
  apply String.toList_injective
  rw [dottedName, hParts, Text.splitDots, hJoin, Text.intercalate_splitChars]

theorem sturdy_ofDotted {dotted : String} {type : Option TypeName} (l : String)
    (h : ∀ t ∈ type, t.SpelledBy dotted) : (ofDotted dotted l type).Sturdy := by
  have hChain : Chain (nameTokens l (Text.splitDots dotted)) := by
    obtain ⟨part, parts, hParts⟩ : ∃ part parts, Text.splitDots dotted = part :: parts :=
      List.exists_cons_of_ne_nil (by simp [Text.splitDots, Text.splitChars_ne_nil])
    rw [hParts]
    exact chain_nameTokens l part parts
  have hSpelling := dottedName_ofDotted dotted l none
  rw [ofDotted, ← nameOf] at hSpelling ⊢
  exact sturdy_nameOf hChain fun t ht => hSpelling.symm ▸ h t ht

-- ---------------------------------------------------------------------------
-- Children like others
-- ---------------------------------------------------------------------------

/-- A child that may stand for another: of the same form in the same field, and a token for a token of
the same kind and spelling. -/
structure Alike (c d : Field × Node) : Prop where
  tag : tag d = tag c
  token : ∀ t, c.2 = .token t → ∃ u : Token, d.2 = .token u ∧ u.kind = t.kind ∧ u.text = t.text

theorem Alike.refl (c : Field × Node) : Alike c c := ⟨rfl, fun t ht => ⟨t, ht, rfl, rfl⟩⟩

section Alike

variable {k : NodeKind} {cs ds : List (Field × Node)}

/-- What stands in a field is like what stood there. -/
theorem filed_alike (h : List.Forall₂ Alike cs ds) (f : Field) :
    List.Forall₂ (fun n m => Alike (f, n) (f, m)) (filed f cs) (filed f ds) := by
  induction h with
  | nil => exact .nil
  | @cons c d cs ds hc _ ih =>
    obtain ⟨g, n⟩ := c
    obtain ⟨g', m⟩ := d
    obtain ⟨rfl, hForm⟩ := Prod.mk.inj hc.tag
    rw [filed_cons, filed_cons]
    split
    · exact .cons ⟨by simp [SourceMigration.tag, hForm], hc.token⟩ ih
    · exact ih

theorem tags_alike (h : List.Forall₂ Alike cs ds) :
    ds.map SourceMigration.tag = cs.map SourceMigration.tag := by
  induction h with
  | nil => rfl
  | cons hc _ ih => rw [List.map_cons, List.map_cons, hc.tag, ih]

theorem hasSign_alike {f : Field} {sign : String} (h : List.Forall₂ Alike cs ds)
    (hSign : HasSign f sign cs) : HasSign f sign ds := by
  obtain ⟨t, ht, hKind, hText⟩ := hSign
  have hFiled := filed_alike h f
  rw [ht] at hFiled
  obtain ⟨m, ms, hAlike, hNil, hm⟩ := List.forall₂_cons_left_iff.mp hFiled
  obtain rfl := List.forall₂_nil_left_iff.mp hNil
  obtain ⟨u, rfl, huKind, huText⟩ := hAlike.token t rfl
  exact ⟨u, hm, huKind.trans hKind, huText.trans hText⟩

/-- What is asked of the children of a node that is no name is also true of others like them. -/
theorem intact_alike (hk : k.form ≠ .name) (h : List.Forall₂ Alike cs ds) (hIntact : k.Intact cs) :
    k.Intact ds := by
  cases k with
  | name t => exact absurd rfl hk
  | statement =>
    rintro rfl
    cases h
    exact hIntact rfl
  | method =>
    have hLength (f : Field) : (filed f ds).length = (filed f cs).length :=
      (filed_alike h f).length_eq.symm
    show _ = _
    rw [hLength, hLength]
    exact hIntact
  | block | classBody => exact ⟨hasSign_alike h hIntact.1, hasSign_alike h hIntact.2⟩
  | _ => trivial

/-- The children of a sturdy node that is no name are exchanged for sturdy ones like them. -/
theorem Sturdy.alike (h : Sturdy (.branch k cs)) (hk : k.form ≠ .name)
    (hAlike : List.Forall₂ Alike cs ds) (hds : ∀ d ∈ ds, d.2.Sturdy) : Sturdy (.branch k ds) := by
  refine .plain hk ?_ (intact_alike hk hAlike h.intact) hds
  rw [tags_alike hAlike]
  exact h.wellFormed.fills

/-- A child that takes the place of another: sturdy, of the same form in the same field, and a token
only if it is that token. -/
structure Follows (c d : Field × Node) : Prop where
  field : d.1 = c.1
  form : d.2.form = c.2.form
  token : ∀ t, c.2 = .token t → d.2 = .token t
  sturdy : d.2.Sturdy

theorem sturdy_of_follows (h : List.Forall₂ Follows cs ds) : ∀ d ∈ ds, d.2.Sturdy := by
  induction h with
  | nil => simp
  | cons hc _ ih => exact List.forall_mem_cons.mpr ⟨hc.sturdy, ih⟩

/-- Each child of a sturdy node is exchanged for one that may take its place. -/
theorem Sturdy.follow (h : Sturdy (.branch k cs)) (hAll : List.Forall₂ Follows cs ds) :
    Sturdy (.branch k ds) := by
  by_cases hk : k.form = .name
  · -- a name is made of tokens
    obtain ⟨t, ns, hEq⟩ := exists_name (n := .branch k cs) hk
    obtain ⟨rfl, -⟩ := Node.branch.inj hEq
    obtain ⟨ts, rfl, -⟩ := h.exists_chain
    rw [List.forall₂_map_left_iff] at hAll
    have hSame : List.Forall₂ (fun t d => (Field.tokens, Node.token t) = d) ts ds :=
      hAll.imp fun t d hd => (Prod.ext hd.field (hd.token t rfl)).symm
    rw [← List.forall₂_map_left_iff, List.forall₂_eq_eq_eq] at hSame
    exact hSame ▸ h
  · refine h.alike hk (hAll.imp fun c d hd => ⟨?_, fun t ht => ⟨t, hd.token t ht, rfl, rfl⟩⟩)
      (sturdy_of_follows hAll)
    rw [tag, tag, hd.field, hd.form]

/-- Each child of a sturdy node is exchanged by itself, and tokens stay. -/
theorem Sturdy.map {g : Node → Node} (h : Sturdy (.branch k cs))
    (hToken : ∀ t, g (.token t) = .token t) (hForm : ∀ c ∈ cs, (g c.2).form = c.2.form)
    (hg : ∀ c ∈ cs, (g c.2).Sturdy) : Sturdy (.branch k (cs.map fun c => (c.1, g c.2))) := by
  refine h.follow ?_
  rw [List.forall₂_map_right_iff, List.forall₂_same]
  exact fun c hc => ⟨rfl, hForm c hc, fun t ht => by simp only [ht, hToken], hg c hc⟩

end Alike

/-- What a call denotes does not matter. -/
theorem Sturdy.recall {m : Option MethodType} {cs : List (Field × Node)}
    (h : Sturdy (.branch (.call m) cs)) (m' : Option MethodType) :
    Sturdy (.branch (.call m') cs) :=
  .plain (by simp [NodeKind.form]) h.wellFormed.fills trivial fun _ hc => h.child hc

/-- A node stays sturdy whatever trivia stand before it. -/
theorem Sturdy.withLeading {n : Node} (h : n.Sturdy) (l : String) : (n.withLeading l).Sturdy := by
  induction h with
  | token t => exact .token _
  | @branch k cs hFills hIntact hSpelled hChildren ih =>
    have hNode : Sturdy (.branch k cs) := .branch hFills hIntact hSpelled hChildren
    cases cs with
    | nil => exact hNode
    | cons c cs =>
      by_cases hk : k.form = .name
      · obtain ⟨type, ds, hEq⟩ := exists_name (n := .branch k (c :: cs)) hk
        obtain ⟨rfl, -⟩ := Node.branch.inj hEq
        obtain ⟨ts, hTokens, ⟨t, links, rfl, ht, hLinks⟩, hType⟩ := hNode.exists_chain
        rw [hTokens, ← nameOf]
        have hName : (nameOf type (t :: links)).withLeading l =
            nameOf type (t.withLeading l :: links) := rfl
        rw [hName]
        refine sturdy_nameOf ⟨_, links, rfl, ht, hLinks⟩ fun u hu => ?_
        have hParts := (nameOf type (t :: links)).parts_withLeading l
        rw [hName] at hParts
        have hSame : (nameOf none (t.withLeading l :: links)).dottedName =
            (nameOf none (t :: links)).dottedName := congrArg Text.joinDots hParts
        rw [hSame]
        exact hType u hu
      · obtain ⟨f, n⟩ := c
        rw [withLeading_branch, withLeadingIn_cons]
        refine hNode.alike hk
          (.cons ⟨by simp [tag], ?_⟩ (List.forall₂_same.mpr fun d _ => .refl d)) ?_
        · rintro t rfl
          exact ⟨t.withLeading l, rfl, rfl, rfl⟩
        · intro d hd
          rcases List.mem_cons.mp hd with rfl | hd
          · exact ih (f, n) List.mem_cons_self
          · exact hChildren d (List.mem_cons_of_mem _ hd)

/-- Nodes are replaced by sturdy ones of their form. -/
theorem sturdy_replaceAll (skip : NodeKind → Bool) {f : Node → Option Node}
    (hToken : ∀ t, f (.token t) = none)
    (hf : ∀ n m : Node, n.Sturdy → f n = some m → m.form = n.form ∧ m.Sturdy) {n : Node}
    (h : n.Sturdy) :
    (n.replaceAll skip f).1.form = n.form ∧ (n.replaceAll skip f).1.Sturdy := by
  induction h with
  | token t =>
    rw [replaceAll_token skip (hToken t)]
    exact ⟨rfl, .token t⟩
  | @branch k cs hFills hIntact hSpelled hChildren ih =>
    have hNode : Sturdy (.branch k cs) := .branch hFills hIntact hSpelled hChildren
    cases hNew : f (.branch k cs) with
    | some m =>
      have hSame : ((Node.branch k cs).replaceAll skip f).1 = m := by simp only [replaceAll, hNew]
      rw [hSame]
      exact hf _ m hNode hNew
    | none =>
      rw [replaceAll_branch hNew]
      split
      · exact ⟨rfl, hNode⟩
      · exact ⟨rfl, hNode.map (g := fun n => (n.replaceAll skip f).1)
          (fun t => replaceAll_token skip (hToken t)) (fun c hc => (ih c hc).1)
          fun c hc => (ih c hc).2⟩

end Node

-- ---------------------------------------------------------------------------
-- Classes and units
-- ---------------------------------------------------------------------------

namespace ClassParts

variable {p : ClassParts}

/-- Sturdy parts of a class, of the forms asked for there, with braces around the members. -/
structure Sturdy (p : ClassParts) : Prop where
  modifiers : ∀ n ∈ p.modifiers, n.form ∈ elementForms ∧ n.Sturdy
  header : ∀ n ∈ p.header, n.form ∈ elementForms ∧ n.Sturdy
  supertype : ∀ c ∈ p.extends?, c.2.form ∈ [Form.name, .parameterized] ∧ c.2.Sturdy
  tail : ∀ n ∈ p.tail, n.form ∈ elementForms ∧ n.Sturdy
  opening : p.opening.isSign "\x7b"
  members : ∀ n ∈ p.members, n.form ∈ memberForms ∧ n.Sturdy
  closing : p.closing.isSign "\x7d"

theorem Sturdy.wellFormed (h : p.Sturdy) : p.WellFormed where
  modifiers n hn := (h.modifiers n hn).imp_right Node.Sturdy.wellFormed
  header n hn := (h.header n hn).imp_right Node.Sturdy.wellFormed
  supertype c hc := (h.supertype c hc).imp_right Node.Sturdy.wellFormed
  tail n hn := (h.tail n hn).imp_right Node.Sturdy.wellFormed
  members n hn := (h.members n hn).imp_right Node.Sturdy.wellFormed

/-- A sturdy class is made of sturdy parts. -/
theorem exists_sturdy {decl : Node} (h : decl.Sturdy) (hForm : decl.form = .typeDeclaration) :
    ∃ p : ClassParts, decl = p.toNode ∧ p.Sturdy := by
  obtain ⟨cs, rfl⟩ := Node.exists_children (k := .typeDeclaration) rfl hForm
  obtain ⟨p, hp, hFine⟩ := h.wellFormed.exists_classParts
  rw [hp] at h
  have hBody : p.body.Sturdy := h.child (c := (.body, p.body)) (by simp [children])
  obtain ⟨⟨t, ht, hOpening⟩, ⟨u, hu, hClosing⟩⟩ := hBody.intact
  obtain rfl : p.opening = t := by simpa [filed_cons, filed_map] using ht
  obtain rfl : p.closing = u := by simpa [filed_cons, filed_map] using hu
  refine ⟨p, hp, fun n hn => ⟨(hFine.modifiers n hn).1, ?_⟩,
    fun n hn => ⟨(hFine.header n hn).1, ?_⟩, fun c hc => ⟨(hFine.supertype c hc).1, ?_⟩,
    fun n hn => ⟨(hFine.tail n hn).1, ?_⟩, hOpening,
    fun n hn => ⟨(hFine.members n hn).1, ?_⟩, hClosing⟩
  · exact h.child (c := (.modifiers, n)) (by simp [children, hn])
  · exact h.child (c := (.header, n)) (by simp [children, hn])
  · have hClause : (clauseOf c).Sturdy :=
      h.child (c := (.superclass, clauseOf c)) (by simp [children, Option.mem_def.mp hc])
    exact hClause.child (c := (.supertype, c.2)) (by simp)
  · exact h.child (c := (.tail, n)) (by simp [children, hn])
  · exact hBody.child (c := (.members, n)) (by simp [hn])

/-- The class made of sturdy parts is sturdy. -/
theorem Sturdy.toNode (h : p.Sturdy) : p.toNode.Sturdy := by
  have hFine := h.wellFormed
  have hBody : p.body.Sturdy := by
    refine .plain (by simp [NodeKind.form]) hFine.body.fills
      ⟨⟨p.opening, ?_, h.opening⟩, ⟨p.closing, ?_, h.closing⟩⟩ fun c hc => ?_
    · simp [filed_cons, filed_map]
    · simp [filed_cons, filed_map]
    · simp only [List.mem_cons, List.mem_append, List.mem_map, List.not_mem_nil, or_false] at hc
      rcases hc with rfl | ⟨n, hn, rfl⟩ | rfl
      · exact .token _
      · exact (h.members n hn).2
      · exact .token _
  refine .plain (by simp [NodeKind.form]) hFine.toNode.fills trivial fun c hc => ?_
  simp only [children, List.mem_cons, List.mem_append, List.mem_map, List.not_mem_nil,
    or_false] at hc
  rcases hc with ⟨n, hn, rfl⟩ | rfl | rfl | ⟨n, hn, rfl⟩ | ⟨c, hc, rfl⟩ | ⟨n, hn, rfl⟩ | rfl
  · exact (h.modifiers n hn).2
  · exact .token _
  · exact .token _
  · exact (h.header n hn).2
  · have hc := Option.mem_toList.mp hc
    refine .plain (by simp [NodeKind.form]) (wellFormed_clauseOf (hFine.supertype c hc)).fills
      trivial fun d hd => ?_
    simp only [List.mem_cons, List.not_mem_nil, or_false] at hd
    rcases hd with rfl | rfl
    · exact .token _
    · exact (h.supertype c hc).2
  · exact (h.tail n hn).2
  · exact hBody

end ClassParts

namespace UnitParts

/-- Sturdy parts of a unit, of the forms asked for there. -/
structure Sturdy (p : UnitParts) : Prop where
  package : ∀ n ∈ p.package, n.form = .packageDeclaration ∧ n.Sturdy
  imports : ∀ n ∈ p.imports, n.form = .importDeclaration ∧ n.Sturdy
  types : ∀ n ∈ p.types, n.form ∈ memberForms ∧ n.Sturdy
  endMarker : ∃ t, p.endMarker = [.token t]

/-- The parts of a sturdy unit are sturdy, and it is made of them. -/
theorem sturdy_unitParts {unit : Node} (h : unit.Sturdy) (hForm : unit.form = .unit) :
    unit.unitParts.Sturdy ∧ unit.unitParts.toUnit = unit := by
  obtain ⟨cs, rfl⟩ := Node.exists_children (k := .unit) rfl hForm
  have hFine := h.wellFormed
  have hPart {f : Field} {n : Node} (hn : n ∈ filed f cs) : n.Sturdy := h.child (mem_of_mem_filed hn)
  refine ⟨⟨fun n hn => ?_, fun n hn => ?_, fun n hn => ?_, ?_⟩, hFine.toUnit_unitParts⟩
  · have hMem : n ∈ filed .package cs := List.mem_of_head? hn
    have hForms := (hFine.fieldwise.2 ⟨.package, .optional, [.packageDeclaration]⟩
      (by simp [NodeKind.slots])).2
    exact ⟨List.mem_singleton.mp (hForms n hMem).1, hPart hMem⟩
  · have hForms : ∀ n ∈ filed .imports cs, n.form ∈ [Form.importDeclaration] ∧ n.WellFormed :=
      hFine.filed_many (by simp [NodeKind.slots])
    exact ⟨List.mem_singleton.mp (hForms n hn).1, hPart hn⟩
  · have hForms : ∀ n ∈ filed .types cs, n.form ∈ memberForms ∧ n.WellFormed :=
      hFine.filed_many (by simp [NodeKind.slots])
    exact ⟨(hForms n hn).1, hPart hn⟩
  · exact hFine.exists_filed_token (f := .endMarker) (by simp [NodeKind.slots])

/-- The unit made of sturdy parts is sturdy. -/
theorem Sturdy.toUnit {p : UnitParts} (h : p.Sturdy) : p.toUnit.Sturdy := by
  obtain ⟨t, ht⟩ := h.endMarker
  have hFine {forms : List Form} {ns : List Node} (hns : ∀ n ∈ ns, n.form ∈ forms ∧ n.Sturdy) :
      ∀ n ∈ ns, n.form ∈ forms ∧ n.WellFormed := fun n hn => ⟨(hns n hn).1, (hns n hn).2.wellFormed⟩
  have hPackage (ss : List Slot) : Fills (⟨.package, .optional, [.packageDeclaration]⟩ :: ss)
      ((p.package.toList.map fun n => (Field.package, n)).map tag) ss := by
    cases hEq : p.package with
    | none => exact .skip (by simp) (.refl _)
    | some n =>
      exact .single (s := ⟨.package, .optional, [.packageDeclaration]⟩) (by simp)
        (by simp [(h.package n hEq).1]) (.refl _)
  have hImports : ∀ n ∈ p.imports, n.form ∈ [Form.importDeclaration] ∧ n.Sturdy :=
    fun n hn => ⟨List.mem_singleton.mpr (h.imports n hn).1, (h.imports n hn).2⟩
  refine .plain (by simp [NodeKind.form]) ?_ trivial ?_
  · rw [ht]
    simp only [List.map_append]
    refine Fills.append (Fills.append ((hPackage _).append
      (fills_many (s := ⟨.imports, .many, [.importDeclaration]⟩) rfl
        (ClassParts.tags_of_forms (hFine hImports)))) (.skip (by simp)
      (fills_many (s := ⟨.types, .many, memberForms⟩) rfl
        (ClassParts.tags_of_forms (hFine h.types))))) ?_
    exact .skip (by simp)
      (.single (s := ⟨.endMarker, .one, [.token]⟩) (by simp) (by simp [Node.form]) (.refl _))
  · intro c hc
    simp only [ht, List.mem_append, List.mem_map, Option.mem_toList] at hc
    rcases hc with ((⟨n, hn, rfl⟩ | ⟨n, hn, rfl⟩) | ⟨n, hn, rfl⟩) | ⟨n, hn, rfl⟩
    · exact (h.package n hn).2
    · exact (h.imports n hn).2
    · exact (h.types n hn).2
    · rw [List.mem_singleton.mp hn]
      exact .token t

end UnitParts

end SourceMigration
