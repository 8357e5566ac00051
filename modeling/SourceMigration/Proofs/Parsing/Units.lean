import SourceMigration.Proofs.Parsing.Elements

/-!
# SourceMigration — units from their parts

The top of a file: a package, imports and types, each of which becomes a node. The conversion of a whole file
goes through its lexemes and takes the end of the text behind them.

## Results

* `reads_package`, `reads_importOf` — the declarations before the types, which end with semicolons.
* `exists_unit`                     — the unit of a file.
-/

namespace SourceMigration

open Concrete (Laid nameTypes)
open Layout (Cut addTrivia)

namespace TreeBuilder

variable {source : List Char} {root n c : Concrete} {ns : List Concrete}

-- ---------------------------------------------------------------------------
-- Packages
-- ---------------------------------------------------------------------------

/-- What becomes a declaration before the types. -/
structure Opening (source : List Char) (root : Concrete) (form : Form) (v : Node)
    (ts : List Token) : Prop where
  single : Single source root [form] v ts
  closed : v.Closed

section Package

variable {p : PackageParts}

theorem packagePart_modifiers (hKeyword : p.keyword = none) (hType : c.type ≠ "package" ∧ c.type ≠ ";") :
    packagePart source p c = (fun es => { p with modifiers := p.modifiers ++ es }) <$> elements source c := by
  rw [packagePart, if_neg (by simpa using hType.1), if_neg (by simpa using hType.2),
    if_pos (by simp [hKeyword]),
    map_eq_pure_bind]

theorem packagePart_keyword (hType : c.type = "package") :
    packagePart source p c = (fun v => { p with keyword := some v }) <$> tokenNode source c := by
  rw [packagePart, if_pos (by simp [hType]), map_eq_pure_bind]

theorem packagePart_name (hKeyword : p.keyword.isSome) (hType : c.type ≠ "package" ∧ c.type ≠ ";") :
    packagePart source p c = (fun v => { p with name := some v }) <$> nameTree source c := by
  rw [packagePart, if_neg (by simpa using hType.1), if_neg (by simpa using hType.2),
    if_neg (by simpa using Option.isSome_iff_ne_none.mp hKeyword), map_eq_pure_bind]

theorem packagePart_semicolon (hType : c.type = ";") :
    packagePart source p c = (fun v => { p with semicolon := some v }) <$> tokenNode source c := by
  rw [packagePart, if_neg (by simp [hType]), if_pos (by simp [hType]), map_eq_pure_bind]

end Package

theorem not_special_of_nameTypes {type : String} (h : nameTypes.contains type = true) :
    type ∉ ["package", ";", "import", "static", ".", "asterisk"] := by
  rw [List.contains_iff_mem] at h
  revert type
  decide

theorem reads_nameFiled {P : Type} (set : Node → P) (hRegular : ∀ m ∈ root.inside, m.Regular)
    (hn : n ∈ root.inside) (hComment : n.isComment = false) (hType : nameTypes.contains n.type = true)
    (hName : n.isName = true) :
    Reads source (set <$> nameTree source n) n.lexemes fun q ts =>
      ∃ v, q = set v ∧ Single source root [.name] v ts :=
  (reads_nameTree hRegular hn hComment hType hName).map fun v _ hv => ⟨v, rfl, hv⟩

theorem hasSign_semicolon {cs : List (Field × Node)} {t : Token} (hNone : filed .semicolon cs = [])
    (ht : t.isSign ";") : HasSign .semicolon ";" (cs ++ fileUnder .semicolon [.token t]) :=
  ⟨t, by rw [filed_append, hNone, filed_fileUnder, if_pos rfl, List.nil_append], ht⟩

theorem reads_semicolon (hn : n.Regular) (hComment : n.isComment = false) (hType : n.type = ";") :
    Reads source (tokenNode source n) n.lexemes fun v ts => ∃ t : Token, v = .token t ∧ ts = [t] ∧
    t.isSign ";" := by
  have hSign : n.type ∈ signs := by simp [hType, signs]
  refine (reads_tokenNode (lexemes_of_sign hn hSign hComment)).mono fun v ts hv => ?_
  obtain ⟨t, rfl, rfl, hMade⟩ := hv
  exact ⟨t, rfl, rfl, hType ▸ isSign_of_made hn hSign hMade⟩

/-- The parts of a package make one. -/
theorem opening_package {modifiers : List Node} {keyword semicolon : Token} {name : Node} {ts us : List Token}
    (hModifiers : Run (IsList source root) elementForms modifiers ∧ modifiers.flatMap Node.tokens = ts)
    (hName : Single source root [.name] name us) (hSemicolon : semicolon.isSign ";") :
    Opening source root .packageDeclaration
      (.branch .packageDeclaration
        (fileUnder .modifiers modifiers ++ fileUnder .keyword [.token keyword] ++ fileUnder .name [name] ++
          fileUnder .semicolon [.token semicolon])) (ts ++ keyword :: (us ++ [semicolon])) := by
  refine ⟨⟨?_, solid_branch (by simp [NodeKind.form]) rfl ?_ trivial ?_ ?_,
    by simp [Node.form, NodeKind.form]⟩,
    hasSign_semicolon ?_ hSemicolon⟩
  · simp [Node.tokens, tokensOf_append, tokensOf_fileUnder, hModifiers.2, hName.tokens]
  · exact fills_map_append (fills_map_append (fills_map_append
      (hModifiers.1.fills (s := ⟨.modifiers, _, _⟩) rfl)
      (fills_one (s := ⟨.keyword, _, _⟩) (by simp [Node.form]) (by simp)))
      (fills_one (s := ⟨.name, _, _⟩) hName.form (by simp)))
      (fills_one (s := ⟨.semicolon, _, _⟩) (by simp [Node.form]) (by simp))
  · simp only [List.map_append, map_snd_fileUnder]
    exact ((hModifiers.1.argued.append (argued_of_forms (by simp [Node.form]))).append
      (argued_of_forms (by simpa using hName.not_call (by decide)))).append
      (argued_of_forms (by simp [Node.form]))
  · simp only [List.forall_mem_append]
    refine ⟨⟨⟨?_, ?_⟩, ?_⟩, ?_⟩ <;> refine solid_fileUnder ?_ _
    · exact hModifiers.1.solid
    · simpa using solid_token keyword
    · simpa using hName.solid
    · simpa using solid_token semicolon
  · simp [filed_append, filed_fileUnder]

/-- The package of a file. -/
theorem reads_package (hRegular : ∀ m ∈ root.inside, m.Regular) (hn : n ∈ root.inside)
    (hComment : n.isComment = false) (hType : n.type = "package_declaration") :
    Reads source (package source n) n.lexemes (Opening source root .packageDeclaration) := by
  obtain ⟨modifiers, keyword, name, semicolon, hParts, hModifiers, hKeyword, hNamed, hNameType, hIsName,
    hSemicolon⟩ := (hRegular n hn).package hType
  have hIn (c) (hc : c ∈ n.parts) : c ∈ root.inside ∧ c.isComment = false :=
    ⟨Concrete.mem_inside_of_parts hn hc, Concrete.isComment_of_mem_parts hc⟩
  have hKeywordIn := hIn keyword (by simp [hParts])
  have hNameIn := hIn name (by simp [hParts])
  have hSemicolonIn := hIn semicolon (by simp [hParts])
  have hOther := not_special_of_nameTypes hNameType
  have hConverts : ∀ c ∈ modifiers, Converts source root c := by
    intro c hc
    have hc := hIn c (by simp [hParts, hc])
    exact converts hRegular hc.1 hc.2
  rw [package, Concrete.lexemes_of_parts hComment hParts (by simp) (by rw [hType]; rfl), hParts]
  refine Reads.bind_pure (P := fun p ts =>
    Opening source root .packageDeclaration (.branch .packageDeclaration
      (fileUnder .modifiers p.modifiers ++ fileUnder .keyword p.keyword.toList ++
        fileUnder .name p.name.toList ++ fileUnder .semicolon p.semicolon.toList)) ts) ?_ fun p ts hp => hp
  rw [List.foldlM_append, List.flatMap_append]
  refine (reads_filing (fun (p : PackageParts) es => { p with modifiers := p.modifiers ++ es })
    (fun p => p.keyword = none) (fun p => by simp) (fun p es fs => by simp) (fun p es hp => hp)
    (fun p hp c hc => packagePart_modifiers hp (hModifiers c hc)) hConverts rfl).bind fun p ts hp => ?_
  obtain ⟨ms, rfl, hms⟩ := hp
  simp only [List.foldlM_cons, List.foldlM_nil, List.flatMap_cons, List.flatMap_nil, List.append_nil]
  rw [packagePart_keyword hKeyword]
  have hKeyword := (hRegular _ hKeywordIn.1).lexemes_sign hNamed hKeywordIn.2
  refine (reads_tokenFiled _ hKeyword).bind fun p us hp => ?_
  obtain ⟨k, rfl, rfl, -⟩ := hp
  rw [packagePart_name rfl (by simp only [List.mem_cons, not_or] at hOther; exact ⟨hOther.1, hOther.2.1⟩)]
  refine (reads_nameFiled _ hRegular hNameIn.1 hNameIn.2 hNameType hIsName).bind fun p vs hp => ?_
  obtain ⟨v, rfl, hv⟩ := hp
  rw [packagePart_semicolon hSemicolon]
  refine Reads.bind_pure ?_ fun p ts hp => hp
  refine (reads_semicolon (hRegular _ hSemicolonIn.1) hSemicolonIn.2 hSemicolon).map fun w ws hw => ?_
  obtain ⟨s, rfl, rfl, hs⟩ := hw
  simpa using opening_package ⟨hms.run, hms.tokens⟩ hv hs

-- ---------------------------------------------------------------------------
-- Imports
-- ---------------------------------------------------------------------------

section Import

variable {p : ImportParts}

theorem importPart_keyword (hType : c.type = "import") :
    importPart source p c = (fun v => { p with keyword := some v }) <$> tokenNode source c := by
  rw [importPart, if_pos (by simp [hType]), map_eq_pure_bind]

theorem importPart_static (hType : c.type = "static") :
    importPart source p c = (fun v => { p with staticWord := some v }) <$> tokenNode source c := by
  rw [importPart, if_neg (by simp [hType]), if_pos (by simp [hType]), map_eq_pure_bind]

theorem importPart_wildcard (hType : c.type = "." ∨ c.type = "asterisk") :
    importPart source p c = (fun v => { p with wildcard := p.wildcard ++ [v] }) <$> tokenNode source c := by
  rcases hType with hType | hType <;>
    rw [importPart, if_neg (by simp [hType]), if_neg (by simp [hType]), if_pos (by simp [hType]),
      map_eq_pure_bind]

theorem importPart_semicolon (hType : c.type = ";") :
    importPart source p c = (fun v => { p with semicolon := some v }) <$> tokenNode source c := by
  rw [importPart, if_neg (by simp [hType]), if_neg (by simp [hType]), if_neg (by simp [hType]),
    if_pos (by simp [hType]), map_eq_pure_bind]

theorem importPart_name (hType : nameTypes.contains c.type = true) :
    importPart source p c = (fun v => { p with name := some v }) <$> nameTree source c := by
  have hOther := not_special_of_nameTypes hType
  simp only [List.mem_cons, List.not_mem_nil, or_false, not_or] at hOther
  obtain ⟨-, hSemicolon, hImport, hStatic, hDot, hAsterisk⟩ := hOther
  rw [importPart, if_neg (by simpa using hImport), if_neg (by simpa using hStatic),
    if_neg (by simp [hDot, hAsterisk]),
    if_neg (by simpa using hSemicolon), map_eq_pure_bind]

end Import

/-- A node that is made of one sign is spelled like the sign. -/
theorem reads_asterisk (hn : n.Regular) (hComment : n.isComment = false) (hType : n.type = "asterisk")
    (hLexemes : n.lexemes.map Concrete.type = ["*"]) :
    Reads source (tokenNode source n) n.lexemes fun v ts => ∃ t : Token, v = .token t ∧ ts = [t] := by
  obtain ⟨m, rest, hEq, hm, hRest⟩ := List.map_eq_cons_iff.mp hLexemes
  obtain rfl := List.map_eq_nil_iff.mp hRest
  have hBegins := hn.begins hComment
  have hEnds := hn.ends hComment
  rw [hEq] at hBegins hEnds ⊢
  simp only [List.head?_cons, List.getLast?_singleton, Option.map_some, Option.some.injEq,
    Prod.mk.injEq] at hBegins hEnds
  obtain ⟨hStart, hRow, hColumn⟩ := hBegins
  have hKind (cs : List Char) : tokenKind n.type cs = tokenKind m.type cs := by
    simp [tokenKind, hType, hm, numberTypes]
  have hSame : token source n = token source m := by
    funext offset
    simp only [token, hStart, hRow, hColumn, hEnds, hKind]
  rw [tokenNode, hSame]
  exact (reads_token m).map fun t ts ht => ⟨t, rfl, ht.1⟩

/-- The parts of an import make one. -/
theorem opening_import {statics wildcard : List Token} {keyword semicolon : Token} {name : Node}
    {ts : List Token}
    (hStatics : statics.length ≤ 1) (hName : Single source root [.name] name ts)
    (hSemicolon : semicolon.isSign ";") :
    Opening source root .importDeclaration
      (.branch .importDeclaration
        (fileUnder .keyword [.token keyword] ++ fileUnder .staticWord (statics.map .token) ++
          fileUnder .name [name] ++ fileUnder .wildcard (wildcard.map .token) ++
          fileUnder .semicolon [.token semicolon]))
          (keyword :: (statics ++ (ts ++ (wildcard ++ [semicolon])))) := by
  have hTokens (us : List Token) : (us.map Node.token).flatMap Node.tokens = us := by
    simp [List.flatMap_map, Node.tokens]
  have hRun (us : List Token) : Run (IsList source root) [.token] (us.map Node.token) :=
    run_of_forall (fun e he => by
      obtain ⟨t, -, rfl⟩ := List.mem_map.mp he
      exact ⟨solid_token t, by simp [Node.form]⟩) (by simp)
  have hStatic (ss : List Slot) : Fills (⟨.staticWord, .optional, [.token]⟩ :: ss)
      ((fileUnder .staticWord (statics.map .token)).map tag) ss := by
    cases statics with
    | nil => exact .skip (by simp) (.refl _)
    | cons t rest =>
      obtain rfl : rest = [] := by simpa using hStatics
      exact fills_one (s := ⟨.staticWord, .optional, [.token]⟩) (by simp [Node.form]) (by simp)
  refine ⟨⟨?_, solid_branch (by simp [NodeKind.form]) rfl ?_ trivial ?_ ?_,
    by simp [Node.form, NodeKind.form]⟩,
    hasSign_semicolon ?_ hSemicolon⟩
  · simp [Node.tokens, tokensOf_append, tokensOf_fileUnder, hName.tokens, hTokens]
  · exact fills_map_append (fills_map_append (fills_map_append (fills_map_append
      (fills_one (s := ⟨.keyword, _, _⟩) (by simp [Node.form]) (by simp)) (hStatic _))
      (fills_one (s := ⟨.name, _, _⟩) hName.form (by simp)))
      ((hRun wildcard).fills (s := ⟨.wildcard, _, _⟩) rfl))
      (fills_one (s := ⟨.semicolon, _, _⟩) (by simp [Node.form]) (by simp))
  · simp only [List.map_append, map_snd_fileUnder]
    exact ((((argued_of_forms (by simp [Node.form])).append (hRun statics).argued).append
      (argued_of_forms (by simpa using hName.not_call (by decide)))).append (hRun wildcard).argued).append
      (argued_of_forms (by simp [Node.form]))
  · simp only [List.forall_mem_append]
    refine ⟨⟨⟨⟨?_, ?_⟩, ?_⟩, ?_⟩, ?_⟩ <;> refine solid_fileUnder ?_ _
    · simpa using solid_token keyword
    · exact (hRun statics).solid
    · simpa using hName.solid
    · exact (hRun wildcard).solid
    · simpa using solid_token semicolon
  · simp [filed_append, filed_fileUnder]

/-- What stands between the keyword of an import and its name. -/
theorem reads_statics {statics : List Concrete} (hRegular : ∀ c ∈ statics, c.Regular ∧ c.isComment = false)
    (h : statics = [] ∨ ∃ word, statics = [word] ∧ word.type = "static" ∧ word.info.isNamed = false)
    {p : ImportParts} (hp : p.staticWord = none) :
    Reads source (statics.foldlM (importPart source) p) (statics.flatMap Concrete.lexemes) fun q ts =>
      ts.length ≤ 1 ∧ ∃ w : Option Node, q = { p with staticWord := w } ∧ w.toList = ts.map .token := by
  rcases h with rfl | ⟨word, rfl, hType, hNamed⟩
  · exact reads_pure ⟨by simp, none, by rw [← hp], rfl⟩
  · have hWord := hRegular word (by simp)
    rw [List.foldlM_cons, importPart_static hType, List.flatMap_singleton]
    refine Reads.bind_pure ?_ fun p ts hp => hp
    refine (reads_tokenNode (hWord.1.lexemes_sign hNamed hWord.2)).map fun v ts hv => ?_
    obtain ⟨t, rfl, rfl, -⟩ := hv
    exact ⟨by simp, some (.token t), rfl, rfl⟩

/-- What stands between the name of an import and its semicolon. -/
theorem reads_wildcard {wildcard : List Concrete} (hRegular : ∀ c ∈ wildcard, c.Regular ∧ c.isComment = false)
    (h : wildcard = [] ∨ ∃ dot asterisk, wildcard = [dot, asterisk] ∧ dot.type = "." ∧
      asterisk.type = "asterisk" ∧ asterisk.lexemes.map Concrete.type = ["*"]) {p : ImportParts}
    (hp : p.wildcard = []) :
    Reads source (wildcard.foldlM (importPart source) p) (wildcard.flatMap Concrete.lexemes) fun q ts =>
      q = { p with wildcard := ts.map .token } := by
  rcases h with rfl | ⟨dot, asterisk, rfl, hDot, hType, hLexemes⟩
  · exact reads_pure (by simp [← hp])
  · have hDotIs := hRegular dot (by simp)
    have hAsterisk := hRegular asterisk (by simp)
    rw [List.foldlM_cons, importPart_wildcard (Or.inl hDot), List.flatMap_cons, List.flatMap_singleton]
    refine (reads_tokenFiled _
      (lexemes_of_sign hDotIs.1 (by simp [hDot, signs]) hDotIs.2)).bind fun q ts hq => ?_
    obtain ⟨t, rfl, rfl, -⟩ := hq
    rw [List.foldlM_cons, importPart_wildcard (Or.inr hType)]
    refine Reads.bind_pure ?_ fun p ts hp => hp
    refine (reads_asterisk hAsterisk.1 hAsterisk.2 hType hLexemes).map fun v ts hv => ?_
    obtain ⟨u, rfl, rfl⟩ := hv
    simp [hp]

/-- An import. -/
theorem reads_importOf (hRegular : ∀ m ∈ root.inside, m.Regular) (hn : n ∈ root.inside)
    (hComment : n.isComment = false) (hType : n.type = "import_declaration") :
    Reads source (importOf source n) n.lexemes (Opening source root .importDeclaration) := by
  obtain ⟨keyword, statics, name, wildcard, semicolon, hParts, hKeyword, hNamed, hStatics, hNameType, hIsName,
    hSemicolon, hWildcard⟩ := (hRegular n hn).import hType
  have hIn (c) (hc : c ∈ n.parts) : c ∈ root.inside ∧ c.Regular ∧ c.isComment = false :=
    have hMem := Concrete.mem_inside_of_parts hn hc
    ⟨hMem, hRegular c hMem, Concrete.isComment_of_mem_parts hc⟩
  have hKeywordIn := hIn keyword (by simp [hParts])
  have hNameIn := hIn name (by simp [hParts])
  have hSemicolonIn := hIn semicolon (by simp [hParts])
  rw [importOf, Concrete.lexemes_of_parts hComment hParts (by simp) (by rw [hType]; rfl), hParts]
  refine Reads.bind_pure (P := fun p ts => Opening source root .importDeclaration (.branch .importDeclaration
    (fileUnder .keyword p.keyword.toList ++ fileUnder .staticWord p.staticWord.toList ++
      fileUnder .name p.name.toList ++ fileUnder .wildcard p.wildcard ++
      fileUnder .semicolon p.semicolon.toList)) ts) ?_ fun p ts hp => hp
  rw [List.foldlM_cons, List.flatMap_cons, importPart_keyword hKeyword]
  refine (reads_tokenFiled _ (hKeywordIn.2.1.lexemes_sign hNamed hKeywordIn.2.2)).bind fun p ts hp => ?_
  obtain ⟨k, rfl, rfl, -⟩ := hp
  rw [List.foldlM_append, List.flatMap_append]
  refine (reads_statics (fun c hc => (hIn c (by simp [hParts, hc])).2) hStatics rfl).bind fun p us hp => ?_
  obtain ⟨hOne, w, rfl, hw⟩ := hp
  rw [List.foldlM_cons, List.flatMap_cons, importPart_name hNameType]
  refine (reads_nameFiled _ hRegular hNameIn.1 hNameIn.2.2 hNameType hIsName).bind fun p vs hp => ?_
  obtain ⟨v, rfl, hv⟩ := hp
  rw [List.foldlM_append, List.flatMap_append, List.flatMap_singleton]
  refine (reads_wildcard (fun c hc => (hIn c (by simp [hParts, hc])).2) hWildcard rfl).bind fun p ws hp => ?_
  subst hp
  rw [List.foldlM_cons, importPart_semicolon hSemicolon]
  refine Reads.bind_pure ?_ fun p ts hp => hp
  refine (reads_semicolon hSemicolonIn.2.1 hSemicolonIn.2.2 hSemicolon).map fun x xs hx => ?_
  obtain ⟨s, rfl, rfl, hs⟩ := hx
  simpa [hw] using opening_import hOne hv hs

-- ---------------------------------------------------------------------------
-- Files
-- ---------------------------------------------------------------------------

/-- What has been filed of a file, with the tokens that were taken for it. -/
structure Filed (source : List Char) (root : Concrete) (p : FileParts) (ts : List Token) : Prop where
  tokens : p.package.toList.flatMap Node.tokens ++ p.imports.flatMap Node.tokens ++
    p.types.flatMap Node.tokens = ts
  package : ∀ v ∈ p.package, v.Solid (IsList source root) ∧ v.form = .packageDeclaration ∧ v.Closed
  imports : ∀ v ∈ p.imports, v.Solid (IsList source root) ∧ v.form = .importDeclaration ∧ v.Closed
  types : ∀ v ∈ p.types, v.Solid (IsList source root) ∧ v.form ∈ memberForms

/-- One more declaration is filed behind those before it. -/
theorem reads_filePart (hRegular : ∀ m ∈ root.inside, m.Regular) (hc : c ∈ root.inside)
    (hComment : c.isComment = false) {p : FileParts} {us : List Token} (hp : Filed source root p us) :
    Reads source (filePart source p c) c.lexemes fun q ts => Filed source root q (us ++ ts) := by
  rw [filePart]
  split
  · rename_i hPackage
    simp only [Bool.and_eq_true, beq_iff_eq, Option.isNone_iff_eq_none, List.isEmpty_iff] at hPackage
    obtain ⟨⟨⟨hType, hNone⟩, hImports⟩, hTypes⟩ := hPackage
    have hNil : us = [] := by rw [← hp.tokens, hNone, hImports, hTypes]; rfl
    refine (reads_package hRegular hc hComment hType).bind_pure fun v ts hv => ?_
    refine ⟨?_, ?_, hp.imports, hp.types⟩
    · simp [hImports, hTypes, hNil, hv.single.tokens]
    · simpa using ⟨hv.single.solid, by simpa using hv.single.form, hv.closed⟩
  · split
    · rename_i hImport
      simp only [Bool.and_eq_true, beq_iff_eq, List.isEmpty_iff] at hImport
      refine (reads_importOf hRegular hc hComment hImport.1).bind_pure fun v ts hv => ?_
      refine ⟨?_, hp.package, ?_, hp.types⟩
      · simp [← hp.tokens, hImport.2, hv.single.tokens]
      · exact List.forall_mem_append.mpr ⟨hp.imports, by
          simpa using ⟨hv.single.solid, by simpa using hv.single.form, hv.closed⟩⟩
    · refine (converts hRegular hc hComment).member.bind_pure fun v ts hv => ?_
      refine ⟨?_, hp.package, hp.imports, ?_⟩
      · simp [← hp.tokens, hv.tokens]
      · exact List.forall_mem_append.mpr ⟨hp.types, by simpa using ⟨hv.solid, hv.form⟩⟩

theorem reads_file (hRegular : ∀ m ∈ root.inside, m.Regular)
    (hns : ∀ c ∈ ns, c ∈ root.inside ∧ c.isComment = false) {p : FileParts} {us : List Token}
    (hp : Filed source root p us) :
    Reads source (ns.foldlM (filePart source) p) (ns.flatMap Concrete.lexemes) fun q ts =>
      Filed source root q (us ++ ts) := by
  induction ns generalizing p us with
  | nil => exact reads_pure (by rwa [List.append_nil])
  | cons c cs ih =>
    have hc := hns c List.mem_cons_self
    rw [List.foldlM_cons, List.flatMap_cons]
    refine (reads_filePart hRegular hc.1 hc.2 hp).bind fun q ts hq => ?_
    refine (ih (fun d hd => hns d (List.mem_cons_of_mem _ hd)) hq).mono fun q' vs hq' => ?_
    rwa [List.append_assoc] at hq'

/-- The unit made of what was filed, and the end of the text. -/
def FileParts.toUnit (p : FileParts) (e : Token) : Node :=
  .branch .unit
    (fileUnder .package p.package.toList ++ fileUnder .imports p.imports ++ fileUnder .types p.types ++
      [(.endMarker, .token e)])

theorem Filed.solid {p : FileParts} {ts : List Token} (h : Filed source root p ts) (e : Token) :
    (p.toUnit e).Solid (IsList source root) := by
  have hImports : Run (IsList source root) [.importDeclaration] p.imports :=
    run_of_forall (fun v hv => ⟨(h.imports v hv).1, by simpa using (h.imports v hv).2.1⟩) (by decide)
  have hTypes : Run (IsList source root) memberForms p.types := run_of_forall h.types (by decide)
  refine solid_branch (by simp [NodeKind.form]) rfl ?_ trivial ?_ ?_
  · exact fills_map_append (fills_map_append (fills_map_append
      (fills_optional (s := ⟨.package, .optional, [.packageDeclaration]⟩)
        (fun v hv => by simpa using (h.package v hv).2.1) rfl)
      (hImports.fills (s := ⟨.imports, _, _⟩) rfl)) (hTypes.fills (s := ⟨.types, _, _⟩) rfl))
      (fills_one (s := ⟨.endMarker, .one, [.token]⟩) (e := .token e) (by simp [Node.form]) (by simp))
  · simp only [List.map_append, map_snd_fileUnder]
    refine (((argued_of_forms fun v hv => ?_).append hImports.argued).append hTypes.argued).append
      (argued_of_forms (by simp [Node.form]))
    rw [(h.package v (by simpa using hv)).2.1]
    simp
  · simp only [List.forall_mem_append]
    refine ⟨⟨⟨?_, ?_⟩, ?_⟩, by simpa using solid_token e⟩
    · exact solid_fileUnder (fun v hv => (h.package v (by simpa using hv)).1) _
    · exact solid_fileUnder hImports.solid _
    · exact solid_fileUnder hTypes.solid _

theorem Filed.closed {p : FileParts} {ts : List Token} (h : Filed source root p ts) (e : Token) :
    ∀ m ∈ (p.toUnit e).field .package ++ (p.toUnit e).field .imports, m.Closed := by
  intro m hm
  simp only [FileParts.toUnit, Node.field_branch, filed_append, filed_fileUnder] at hm
  simp only [reduceCtorEq, if_true, if_false, List.append_nil, List.nil_append, filed, List.filterMap_cons,
    List.filterMap_nil, List.mem_append, Option.mem_toList] at hm
  rcases hm with hm | hm
  · exact (h.package m hm).2.2
  · exact (h.imports m hm).2.2

/-- What is known of the unit of a file. -/
structure UnitOf (source : List Char) (root : Concrete) (n : Node) : Prop where
  isUnit : n.form = .unit
  solid : n.Solid (IsList source root)
  closed : ∀ m ∈ n.field .package ++ n.field .imports, m.Closed
  /-- Its tokens are those of the file, and the end of the text. -/
  tokens : ∃ ts e, n.tokens = ts ++ [e] ∧ e.kind = .endOfText ∧ Placed [] ts ∧
    ∃ mid, Taken source 0 (root.parts.flatMap Concrete.lexemes) ts mid ∧
      endMarker source mid = some (e, Text.byteLength source)
  text : n.text.toList = source
  apart : Layout.Partition n.tokens

/-- The lexemes of a file that stand in its text become a unit. -/
theorem exists_unit (hRegular : ∀ m ∈ root.inside, m.Regular) {mark rest : List Char}
    (hMark : mark = [] ∨ mark = [Text.byteOrderMark]) (hSource : source = mark ++ rest)
    (hLaid : Laid mark rest (root.parts.flatMap Concrete.lexemes)) :
    ∃ n stop, unit source root 0 = some (n, stop) ∧ UnitOf source root n := by
  obtain ⟨us, e, ts, e', mid, hTaken, hEnd, hCut, hTokens, hText, hPlaced⟩ :=
    exists_taken hLaid (List.nil_append mark).symm hSource
  have hNone : Filed source root {} [] := ⟨rfl, by simp, by simp, by simp⟩
  obtain ⟨p, hp, hFiled⟩ := reads_file hRegular
    (fun c hc => ⟨Concrete.mem_inside hc, Concrete.isComment_of_mem_parts hc⟩) hNone 0 ts mid hTaken
  rw [List.nil_append] at hFiled
  have hUnit : (p.toUnit e').tokens = ts ++ [e'] := by
    rw [FileParts.toUnit, Node.tokens, tokensOf_append, tokensOf_append, tokensOf_append, tokensOf_fileUnder,
      tokensOf_fileUnder, tokensOf_fileUnder, hFiled.tokens]
    simp [Node.tokensOf, Node.tokens]
  have hKind : e'.kind = .endOfText := by
    obtain ⟨leading, -, hSome⟩ := Option.bind_eq_some_iff.mp hEnd
    rw [← (Prod.mk.inj (Option.some.inj hSome)).1]
  refine ⟨p.toUnit e', Text.byteLength source, ?_, by simp [FileParts.toUnit, Node.form, NodeKind.form],
    hFiled.solid e', hFiled.closed e', ⟨ts, e', hUnit, hKind, hPlaced, mid, hTaken, hEnd⟩, ?_, ?_⟩
  · rw [unit]
    change ((root.parts.foldlM (filePart source) ({} : FileParts)) 0).bind _ = _
    rw [hp, Option.bind_some]
    change ((endMarker source mid).bind _ : Option (Node × Nat)).bind _ = _
    rw [hEnd]
    rfl
  · rw [Node.text, hUnit, hText, hSource]
  · refine ⟨us ++ [e], hCut, ?_⟩
    rw [hUnit, hTokens]
    rcases hMark with rfl | rfl
    · left
      cases us <;> simp [addTrivia, Token.withLeading]
    · exact Or.inr rfl

end TreeBuilder

end SourceMigration
