import Mathlib.Data.List.Basic
import SourceMigration.Proofs.Settings.Validated
import SourceMigration.Settings.Load

/-!
# SourceMigration — what loading settings can end with

Settings are loaded from a file and from arguments. What is wrong with a value is reported to the
user, but some values are taken apart before anybody looks at them: the table of all tools, what
stands there for this tool, and the patterns and types that an argument extends. Where such a value
has no parts, loading ends with a fault that nobody is told. Where it has parts that it should not
have, such as a text its characters, these become entries, and what would be wrong without the
argument is no longer noticed.

## Results

* `isTold_ownTable_iff`  — when what is wrong with the tables of a document is told.
* `withOverrides_cases`  — what arguments make of the entries of the file.
* `load_faults`          — when loading ends with settings or with a fault that the user is told, and
  what settings hold that an argument has extended.
-/

namespace SourceMigration

/-- Whether the user is told what is wrong. -/
def LoadFault.isTold (why : LoadFault) : Bool := why.message?.isSome

namespace Settings

variable {g : Registry} {t : FileTree} {directory : FilePath} {o : Overrides} {es : Toml.Entries}

-- ---------------------------------------------------------------------------
-- The settings file
-- ---------------------------------------------------------------------------

/-- The document in the settings file nearest to a directory. It is empty where there is no file, or
one that is no document, and there is none where the file is no text. -/
def document? (t : FileTree) (directory : FilePath) : Option Toml.Entries :=
  match (directory.settled?.bind (nearestFile? t)).bind t.content? with
  | none => some []
  | some content =>
    (Encoding.utf8.decode content).toOption.map fun text => (Toml.ofDocument? text).getD []

/-- All tools of a document stand in a table, and what stands there for this tool can be looked at
entry by entry. -/
def Tabular (file : Toml.Entries) : Prop :=
  ∀ tools, file.lookup toolsKey = some tools → ∃ table, tools = .table table ∧
    ∀ own, table.lookup ownKey = some own → entriesOf own ≠ .error .kind

/-- The entries of the own table are those of the document. -/
theorem fileEntries_of_document {file : Toml.Entries} (h : document? t directory = some file) :
    fileEntries t directory = ownTable file := by
  unfold document? at h
  unfold fileEntries
  cases hContent : (directory.settled?.bind (nearestFile? t)).bind t.content? with
  | none =>
    simp only [hContent, Option.some.injEq] at h
    rw [← h]
    rfl
  | some content =>
    cases hText : Encoding.utf8.decode content with
    | error why => simp [hContent, hText, Except.toOption] at h
    | ok text =>
      simp only [hContent, hText, Except.toOption, Option.map_some, Option.some.injEq] at h
      simp only [hText, h]

/-- A settings file that is no text is a fault that the user is told. -/
theorem fileEntries_of_no_document (h : document? t directory = none) :
    ∃ why, fileEntries t directory = .error why ∧ why.isTold = true := by
  unfold document? at h
  unfold fileEntries
  cases hContent : (directory.settled?.bind (nearestFile? t)).bind t.content? with
  | none => simp [hContent] at h
  | some content =>
    cases hText : Encoding.utf8.decode content with
    | error why => exact ⟨.undecodable why, by simp [hText], rfl⟩
    | ok text => simp [hContent, hText, Except.toOption] at h

theorem mapError_ok {ε ε' α : Type} (f : ε → ε') (a : α) : (Except.ok a).mapError f = .ok a := rfl

theorem mapError_error {ε ε' α : Type} (f : ε → ε') (why : ε) :
    (Except.error why : Except ε α).mapError f = .error (f why) := rfl

/-- What can be wrong with the tables of a document is told exactly if they are tables. -/
theorem isTold_ownTable_iff {file : Toml.Entries} :
    (∀ why, ownTable file = .error why → why.isTold = true) ↔ Tabular file := by
  unfold ownTable Tabular
  cases hTools : file.lookup toolsKey with
  | none => simp
  | some tools =>
    cases tools with
    | table table =>
      cases hOwn : table.lookup ownKey with
      | none => simp [hOwn]
      | some own =>
        cases hEntries : entriesOf own with
        | ok es => simp [hOwn, hEntries, mapError_ok]
        | error why => cases why <;> simp [hOwn, hEntries, mapError_error, LoadFault.isTold,
            LoadFault.message?]
    | _ => simp [LoadFault.isTold, LoadFault.message?]

-- ---------------------------------------------------------------------------
-- Arguments
-- ---------------------------------------------------------------------------

/-- The entries for a setting that an argument may extend: those of the file, then its own. -/
def extension? (key : String) (a : SettingValue) (es : Toml.Entries) : Option (List SettingValue) :=
  match ((es.lookup key).getD (.list [])).parts?, a.parts? with
  | some old, some new => some (old ++ new)
  | _, _ => none

/-- An argument that says something can extend what the file says. -/
def Extensible (key : String) (a : SettingValue) (es : Toml.Entries) : Prop :=
  a.isGiven = true → ∃ values, extension? key a es = some values

/-- The value of a setting after an argument that may extend it. -/
def extended? (key : String) (a : SettingValue) (es : Toml.Entries) : Option SettingValue :=
  if a.isGiven then (extension? key a es).map .list else es.lookup key

/-- All arguments can be joined with the entries of the file. -/
structure Joinable (o : Overrides) (es : Toml.Entries) : Prop where
  included : o.included.isGiven = true → ∃ values, o.included.parts? = some values
  excluded : Extensible "exclude" o.excluded es
  classpath : Extensible "classpath" o.classpath es

theorem lookup_override_of_ne {key k : String} (h : k ≠ key) (v : SettingValue) (es : Toml.Entries) :
    (override key v es).lookup k = es.lookup k := by
  rw [override, List.lookup_cons, beq_eq_false_iff_ne.mpr h]

theorem lookup_replaceBy_of_ne {key k : String} (h : k ≠ key) (v : SettingValue) (es : Toml.Entries) :
    (replaceBy key v es).lookup k = es.lookup k := by
  unfold replaceBy
  split
  · rfl
  · exact lookup_override_of_ne h _ es

section Congr

variable {key : String} {a : SettingValue} {es' : Toml.Entries} (h : es'.lookup key = es.lookup key)

include h

/-- Only what the file says about the setting counts. -/
theorem extension?_congr : extension? key a es' = extension? key a es := by
  unfold extension?
  rw [h]

theorem extended?_congr : extended? key a es' = extended? key a es := by
  unfold extended?
  rw [extension?_congr h, h]

theorem extensible_congr : Extensible key a es' ↔ Extensible key a es := by
  unfold Extensible
  rw [extension?_congr h]

end Congr

/-- An argument extends a value if both have parts, and says nothing about other settings. -/
theorem extendBy_cases (key : String) (a : SettingValue) (es : Toml.Entries) :
    (extendBy key a es = .error .notExtensible ∧ ¬ Extensible key a es) ∨
    ∃ es', extendBy key a es = .ok es' ∧ Extensible key a es ∧ es'.lookup key = extended? key a es ∧
      ∀ k, k ≠ key → es'.lookup k = es.lookup k := by
  unfold extendBy Extensible extended? extension? partsOf
  cases a.isGiven with
  | false => exact Or.inr ⟨es, rfl, nofun, rfl, fun _ _ => rfl⟩
  | true =>
    cases ((es.lookup key).getD (.list [])).parts? with
    | none => exact Or.inl ⟨rfl, fun h => nomatch (h rfl).choose_spec⟩
    | some old =>
      cases a.parts? with
      | none => exact Or.inl ⟨rfl, fun h => nomatch (h rfl).choose_spec⟩
      | some new =>
        exact Or.inr ⟨_, rfl, fun _ => ⟨_, rfl⟩, by simp [override],
          fun k hk => lookup_override_of_ne hk _ es⟩

/-- The patterns that an argument gives in place of those of the file. -/
def includeBy (a : SettingValue) (es : Toml.Entries) : Except LoadFault Toml.Entries :=
  if a.isGiven then (partsOf a).map fun values => override "include" (.list values) es else .ok es

theorem includeBy_cases (a : SettingValue) (es : Toml.Entries) :
    (includeBy a es = .error .notExtensible ∧
      ¬ (a.isGiven = true → ∃ values, a.parts? = some values)) ∨
    ∃ es', includeBy a es = .ok es' ∧ (a.isGiven = true → ∃ values, a.parts? = some values) ∧
      ∀ k, k ≠ "include" → es'.lookup k = es.lookup k := by
  unfold includeBy partsOf
  cases a.isGiven with
  | false => exact Or.inr ⟨es, rfl, nofun, fun _ _ => rfl⟩
  | true =>
    cases a.parts? with
    | none => exact Or.inl ⟨rfl, fun h => nomatch (h rfl).choose_spec⟩
    | some values =>
      exact Or.inr ⟨_, rfl, fun _ => ⟨_, rfl⟩, fun k hk => lookup_override_of_ne hk _ es⟩

/-- The arguments one after the other. -/
theorem withOverrides_eq (o : Overrides) (es : Toml.Entries) : withOverrides o es =
    (includeBy o.included (replaceBy "recipe" o.recipe es)).bind fun es =>
      (extendBy "exclude" o.excluded es).bind fun es =>
        extendBy "classpath" o.classpath
          (replaceBy "encoding" o.encoding (replaceBy "workers" o.workers es)) := by
  unfold withOverrides includeBy
  cases o.included.isGiven with
  | false => rfl
  | true => cases partsOf o.included <;> rfl

/-- What the arguments make of the entries of the file, if they can be joined with these. -/
theorem withOverrides_cases (o : Overrides) (es : Toml.Entries) :
    (withOverrides o es = .error .notExtensible ∧ ¬ Joinable o es) ∨
    ∃ es', withOverrides o es = .ok es' ∧ Joinable o es ∧
      es'.lookup "exclude" = extended? "exclude" o.excluded es ∧
      es'.lookup "classpath" = extended? "classpath" o.classpath es := by
  rw [withOverrides_eq]
  rcases includeBy_cases o.included (replaceBy "recipe" o.recipe es) with
    ⟨hRefused, hNot⟩ | ⟨es₁, hIncluded, hFirst, hSame₁⟩
  · exact Or.inl ⟨by rw [hRefused]; rfl, fun h => hNot h.included⟩
  rw [hIncluded]
  have hExclude : es₁.lookup "exclude" = es.lookup "exclude" :=
    (hSame₁ _ (by decide)).trans (lookup_replaceBy_of_ne (by decide) _ es)
  rcases extendBy_cases "exclude" o.excluded es₁ with
    ⟨hRefused, hNot⟩ | ⟨es₂, hExcluded, hSecond, hRead₂, hSame₂⟩
  · refine Or.inl ⟨by simp [Except.bind, hRefused], fun h => hNot ?_⟩
    exact (extensible_congr hExclude).mpr h.excluded
  simp only [Except.bind, hExcluded]
  generalize hAll : replaceBy "encoding" o.encoding (replaceBy "workers" o.workers es₂) = es₃
  have hKept {k : String} (h : k ≠ "encoding") (h' : k ≠ "workers") : es₃.lookup k = es₂.lookup k := by
    rw [← hAll, lookup_replaceBy_of_ne h, lookup_replaceBy_of_ne h']
  have hClasspath : es₃.lookup "classpath" = es.lookup "classpath" := by
    rw [hKept (by decide) (by decide), hSame₂ _ (by decide), hSame₁ _ (by decide),
      lookup_replaceBy_of_ne (by decide)]
  rcases extendBy_cases "classpath" o.classpath es₃ with
    ⟨hRefused, hNot⟩ | ⟨es₄, hDone, hThird, hRead₄, hSame₄⟩
  · exact Or.inl ⟨hRefused, fun h => hNot ((extensible_congr hClasspath).mpr h.classpath)⟩
  refine Or.inr ⟨es₄, hDone, ⟨hFirst, (extensible_congr hExclude).mp hSecond,
    (extensible_congr hClasspath).mp hThird⟩, ?_, ?_⟩
  · rw [hSame₄ _ (by decide), hKept (by decide) (by decide), hRead₂, extended?_congr hExclude]
  · rw [hRead₄, extended?_congr hClasspath]

-- ---------------------------------------------------------------------------
-- Reading
-- ---------------------------------------------------------------------------

/-- No two settings have one name. -/
theorem nodup_declarations (g : Registry) : ((declarations g).map (·.name)).Nodup := by
  simp [declarations]

/-- The lists of texts that settings hold are what the entries say. -/
theorem lookup_of_ofEntries [Pydantic] [LawfulPydantic] {s : Settings} (h : ofEntries g es = .ok s) :
    (es.lookup "exclude").getD (.list []) = .list (s.excluded.map .text) ∧
      (es.lookup "classpath").getD (.list []) = .list (s.classpath.map .text) := by
  unfold ofEntries at h
  cases hValues : Pydantic.validate (declarations g) es with
  | error faults => simp [hValues, Except.map] at h
  | ok value =>
    rw [hValues] at h
    cases h
    have hAccepted (name : String) (hName : ⟨name, .texts []⟩ ∈ declarations g) :=
      LawfulPydantic.accepted (nodup_declarations g) hValues hName
    exact ⟨hAccepted "exclude" (by simp [declarations]), hAccepted "classpath" (by simp [declarations])⟩

/-- What is refused for one of them is no list of texts. -/
theorem exists_of_refused [Pydantic] [LawfulPydantic] {faults : List SettingFault} {fault : SettingFault}
    (h : ofEntries g es = .error faults) (hFault : fault ∈ faults)
    (hSetting : fault.setting = "exclude" ∨ fault.setting = "classpath") :
    ∃ v, es.lookup fault.setting = some v ∧ ∀ texts : List String, v ≠ .list (texts.map .text) := by
  unfold ofEntries at h
  cases hValues : Pydantic.validate (declarations g) es with
  | ok value => simp [hValues, Except.map] at h
  | error why =>
    rw [hValues] at h
    cases h
    have hDeclared : ⟨fault.setting, .texts []⟩ ∈ declarations g := by
      rcases hSetting with hSetting | hSetting <;> simp [hSetting, declarations]
    exact LawfulPydantic.refused (nodup_declarations g) hValues hFault hDeclared

-- ---------------------------------------------------------------------------
-- Loading
-- ---------------------------------------------------------------------------

/-- Whether a value that is no list is taken apart where an argument extends it: a text into its
characters, and a table into its keys. -/
def takenApart : SettingValue → Bool
  | .text _ | .table _ => true
  | _ => false

/-- The settings that arguments extend: their names, the arguments, and what was loaded for them. -/
def extensions (o : Overrides) (s : Settings) : List (String × SettingValue × List String) :=
  [("exclude", o.excluded, s.excluded), ("classpath", o.classpath, s.classpath)]

/-- What a setting reads is what the argument has extended, or else what the file says. -/
theorem eq_of_extended {key : String} {a : SettingValue} {texts : List String}
    (hExtensible : Extensible key a es)
    (h : (extended? key a es).getD (.list []) = .list (texts.map .text)) :
    if a.isGiven then extension? key a es = some (texts.map .text)
    else (es.lookup key).getD (.list []) = .list (texts.map .text) := by
  unfold extended? at h
  split
  · rename_i hGiven
    obtain ⟨values, hValues⟩ := hExtensible hGiven
    rw [if_pos hGiven, hValues, Option.map_some, Option.getD_some, SettingValue.list.injEq] at h
    rw [hValues, h]
  · rename_i hNot
    rwa [if_neg hNot] at h

/-- How loading goes on from the entries of the file. -/
theorem load_of_fileEntries [Pydantic] (h : fileEntries t directory = .ok es) :
    load g t directory o = (withOverrides o es).bind fun es => (ofEntries g es).mapError .invalid := by
  unfold load
  rw [h]
  rfl

theorem load_of_error [Pydantic] {why : LoadFault} (h : fileEntries t directory = .error why) :
    load g t directory o = .error why := by
  unfold load
  rw [h]
  rfl

/-- Settings that arguments extend hold the entries of the file and then those of the argument. -/
theorem extended_of_load [Pydantic] [LawfulPydantic] {s : Settings} (h : load g t directory o = .ok s) :
    ∃ es, fileEntries t directory = .ok es ∧ ∀ key a texts, (key, a, texts) ∈ extensions o s →
      if a.isGiven then extension? key a es = some (texts.map .text)
      else (es.lookup key).getD (.list []) = .list (texts.map .text) := by
  cases hFile : fileEntries t directory with
  | error why => rw [load_of_error hFile] at h; cases h
  | ok es =>
    rw [load_of_fileEntries hFile] at h
    rcases withOverrides_cases o es with ⟨hRefused, -⟩ | ⟨es', hDone, hJoinable, hExcluded, hClasspath⟩
    · rw [hRefused] at h
      cases h
    · rw [hDone] at h
      cases hRead : ofEntries g es' with
      | error why => simp [Except.bind, hRead, mapError_error] at h
      | ok s' =>
        obtain rfl : s' = s := by simpa [Except.bind, hRead, mapError_ok] using h
        have hLists := lookup_of_ofEntries hRead
        rw [hExcluded, hClasspath] at hLists
        refine ⟨es, rfl, fun key a texts hMem => ?_⟩
        simp only [extensions, List.mem_cons, Prod.mk.injEq, List.not_mem_nil, or_false] at hMem
        rcases hMem with ⟨rfl, rfl, rfl⟩ | ⟨rfl, rfl, rfl⟩
        · exact eq_of_extended hJoinable.excluded hLists.1
        · exact eq_of_extended hJoinable.classpath hLists.2

/-- Without arguments, the entries are those of the file. -/
theorem load_of_no_arguments [Pydantic] (h : fileEntries t directory = .ok es) :
    load g t directory {} = (ofEntries g es).mapError .invalid := by
  rw [load_of_fileEntries h]
  rfl

/-- A value that an argument extends to a list of texts is one itself, or is taken apart. -/
theorem takenApart_of_extension {key : String} {a v : SettingValue} {texts : List String}
    (h : extension? key a es = some (texts.map .text)) (hValue : es.lookup key = some v)
    (hOther : ∀ ts : List String, v ≠ .list (ts.map .text)) : takenApart v = true := by
  unfold extension? at h
  rw [hValue, Option.getD_some] at h
  cases v with
  | text s => rfl
  | table entries => rfl
  | list vs =>
    split at h
    · rename_i old new hOld _
      obtain rfl : vs = old := Option.some.inj hOld
      -- the front of a list of texts is one
      have hFront : vs = (texts.take vs.length).map .text := by
        rw [List.map_take, ← Option.some.inj h, List.take_left]
      exact absurd (congrArg SettingValue.list hFront) (hOther _)
    · cases h
  | _ => simp [SettingValue.parts?] at h

/-- Loading ends with settings, or with a fault that the user is told, exactly if the tools of the
document stand in a table, what stands there for this tool can be looked at entry by entry, and the
arguments can be joined with the entries. In settings that were loaded, an argument extends the parts
of what the file says, and the result is a list of texts. So where the file alone is refused for such a
setting, it is accepted with an argument only if what the file says is no list: a text or a table, which is
taken apart. -/
theorem load_faults [Pydantic] [LawfulPydantic] (g : Registry) (t : FileTree) (directory : FilePath)
    (o : Overrides) :
    ((∀ why, load g t directory o = .error why → why.isTold = true) ↔
      ∀ file, document? t directory = some file →
        Tabular file ∧ ∀ es, ownTable file = .ok es → Joinable o es) ∧
    ∀ s, load g t directory o = .ok s →
      ∃ es, fileEntries t directory = .ok es ∧ ∀ key a texts, (key, a, texts) ∈ extensions o s →
        (if a.isGiven then extension? key a es = some (texts.map .text)
          else (es.lookup key).getD (.list []) = .list (texts.map .text)) ∧
        ∀ faults, load g t directory {} = .error (.invalid faults) → ∀ fault ∈ faults, fault.setting = key →
          a.isGiven = true ∧ ∃ v, es.lookup key = some v ∧ takenApart v = true := by
  constructor
  · cases hDocument : document? t directory with
    | none =>
      obtain ⟨why, hFile, hTold⟩ := fileEntries_of_no_document hDocument
      simp [load_of_error hFile, hTold]
    | some file =>
      have hFile := fileEntries_of_document hDocument
      simp only [Option.some.injEq, forall_eq']
      rw [← isTold_ownTable_iff]
      cases hTable : ownTable file with
      | error why =>
        rw [hTable] at hFile
        simp [load_of_error hFile]
      | ok es =>
        rw [hTable] at hFile
        rw [load_of_fileEntries hFile]
        rcases withOverrides_cases o es with ⟨hRefused, hNot⟩ | ⟨es', hDone, hJoinable, -⟩
        · simp [hRefused, Except.bind, LoadFault.isTold, LoadFault.message?, hNot]
        · cases hRead : ofEntries g es' <;>
            simp [hDone, Except.bind, hRead, mapError_ok, mapError_error, LoadFault.isTold,
              LoadFault.message?, hJoinable]
  · intro s hLoad
    obtain ⟨es, hFile, hExtended⟩ := extended_of_load hLoad
    refine ⟨es, hFile, fun key a texts hMem => ⟨hExtended key a texts hMem, ?_⟩⟩
    rintro faults hAlone fault hFault rfl
    rw [load_of_no_arguments hFile] at hAlone
    cases hEntries : ofEntries g es with
    | ok s' => simp [hEntries, mapError_ok] at hAlone
    | error why =>
      obtain rfl : why = faults := by simpa [hEntries, mapError_error] using hAlone
      obtain ⟨v, hValue, hOther⟩ := exists_of_refused hEntries hFault
        (by simp only [extensions, List.mem_cons, Prod.mk.injEq, List.not_mem_nil, or_false] at hMem; tauto)
      have hRead := hExtended _ a texts hMem
      split at hRead
      · rename_i hGiven
        exact ⟨hGiven, v, hValue, takenApart_of_extension hRead hValue hOther⟩
      · rw [hValue, Option.getD_some] at hRead
        exact absurd hRead (hOther texts)

/-- A working directory with nothing but a settings file. -/
def directoryWith (text : String) : FileTree :=
  ⟨.directory [(settingsFileName, .file (Encoding.utf8.encode text))]⟩

/-- Patterns in an argument. -/
def joinedPatterns : Overrides := { excluded := .list [.text "b"] }

open StandIn in
set_option maxRecDepth 100000 in
theorem load_joinedPatterns :
    load {} (directoryWith "[tool.logshift]\nexclude = [\"a\"]\n") {} joinedPatterns =
      .ok { excluded := ["a", "b"] } := by decide +kernel

open StandIn in
theorem load_faults_joinedPatterns :
    load {} (directoryWith "[tool.logshift]\nexclude = [\"a\"]\n") {} joinedPatterns =
        .ok { excluded := ["a", "b"] } ∧
      ∃ es, fileEntries (directoryWith "[tool.logshift]\nexclude = [\"a\"]\n") {} = .ok es ∧
        extension? "exclude" joinedPatterns.excluded es = some [.text "a", .text "b"] := by
  obtain ⟨es, hFile, hAll⟩ := (load_faults {} _ {} joinedPatterns).2 _ load_joinedPatterns
  have hExcluded := hAll "exclude" joinedPatterns.excluded ["a", "b"] (by simp [extensions])
  exact ⟨load_joinedPatterns, es, hFile, hExcluded.1⟩

end Settings

end SourceMigration
