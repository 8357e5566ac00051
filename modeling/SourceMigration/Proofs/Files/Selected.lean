import SourceMigration.Files.Discovery
import SourceMigration.Proofs.Editing.Draining
import SourceMigration.Proofs.Files.Rewritten

/-!
# SourceMigration — what patterns select

The paths that patterns select lead on from the directory that is searched, by names of entries and by
names of the patterns. So no two of them are spelled alike below that directory. Two of them can still
lead to one file, but only if a pattern leads back by two dots.

## Results

* `ofText_text`        — the text of a path says what the path is.
* `leads_found`        — what is found leads on from the directory that is searched.
* `nodup_names_found`  — no two files that are found have one name.
* `nodup_places_found` — no two of them are one file, unless a pattern leads back.
-/

namespace SourceMigration

/-- What is made of a list is made of its members. -/
theorem exists_of_mapM {ε α β : Type} {f : α → Except ε β} {as : List α} {bs : List β}
    (h : as.mapM f = .ok bs) {b : β} (hb : b ∈ bs) : ∃ a ∈ as, f a = .ok b := by
  induction as generalizing bs with
  | nil =>
    cases h
    cases hb
  | cons a as ih =>
    rw [List.mapM_cons] at h
    cases hFirst : f a with
    | error why => simp [hFirst, bind, Except.bind] at h
    | ok c =>
      cases hRest : as.mapM f with
      | error why => simp [hFirst, hRest, bind, Except.bind] at h
      | ok cs =>
        simp only [hFirst, hRest, bind, Except.bind, pure, Except.pure, Except.ok.injEq] at h
        rw [← h] at hb
        rcases List.mem_cons.mp hb with rfl | hLater
        · exact ⟨a, List.mem_cons_self, hFirst⟩
        · obtain ⟨a', ha', hMade⟩ := ih hRest hLater
          exact ⟨a', List.mem_cons_of_mem _ ha', hMade⟩

-- ---------------------------------------------------------------------------
-- Texts of paths
-- ---------------------------------------------------------------------------

namespace FilePath

theorem splitSlashes_of_plain {part : List Char} (h : '/' ∉ part) : splitSlashes part = [part] := by
  induction part with
  | nil => rfl
  | cons c cs ih =>
    rw [List.mem_cons, not_or] at h
    rw [splitSlashes, if_neg (Ne.symm h.1), ih h.2]

theorem splitSlashes_append {part : List Char} (h : '/' ∉ part) (rest : List Char) :
    splitSlashes (part ++ '/' :: rest) = part :: splitSlashes rest := by
  induction part with
  | nil => rfl
  | cons c cs ih =>
    rw [List.mem_cons, not_or] at h
    rw [List.cons_append, splitSlashes, if_neg (Ne.symm h.1), ih h.2]

theorem noSlash_splitSlashes {cs part : List Char} (h : part ∈ splitSlashes cs) : '/' ∉ part := by
  induction cs generalizing part with
  | nil =>
    obtain rfl := List.mem_singleton.mp h
    simp
  | cons c cs ih =>
    rw [splitSlashes] at h
    split at h
    · rcases List.mem_cons.mp h with rfl | h
      · simp
      · exact ih h
    · rename_i hPlain
      cases hRest : splitSlashes cs with
      | nil =>
        obtain rfl : part = [c] := by simpa [hRest] using h
        simpa using Ne.symm hPlain
      | cons p ps =>
        rw [hRest] at ih
        simp only [hRest, List.mem_cons] at h
        rcases h with rfl | h
        · rw [List.mem_cons, not_or]
          exact ⟨Ne.symm hPlain, ih List.mem_cons_self⟩
        · exact ih (List.mem_cons_of_mem _ h)

/-- Names between slashes are what is found between slashes. -/
theorem splitSlashes_intercalate {name : String} {names : List String}
    (h : ∀ n ∈ name :: names, '/' ∉ n.toList) :
    splitSlashes ("/".intercalate (name :: names)).toList = (name :: names).map String.toList := by
  induction names generalizing name with
  | nil => simpa using splitSlashes_of_plain (h name List.mem_cons_self)
  | cons next names ih =>
    have hRest := ih fun n hn => h n (List.mem_cons_of_mem _ hn)
    rw [String.intercalate_cons_cons, String.toList_append, String.toList_append, List.append_assoc]
    have hSplit := splitSlashes_append (h name List.mem_cons_self)
      ("/".intercalate (next :: names)).toList
    rw [hRest] at hSplit
    simpa using hSplit

theorem isStep_iff {name : String} :
    isStep name = true ↔ isName name.toList = true ∧ '/' ∉ name.toList := by
  simp [isStep]

/-- The names of a path that is read are steps. -/
theorem isStep_of_ofText {s name : String} (h : name ∈ (ofText s).names) : isStep name = true := by
  obtain ⟨part, hPart, rfl⟩ := List.mem_map.mp h
  obtain ⟨hSplit, hName⟩ := List.mem_filter.mp hPart
  rw [isStep_iff, String.toList_ofList]
  exact ⟨hName, noSlash_splitSlashes hSplit⟩

/-- The text of a path from the working directory says what the path is. -/
theorem ofText_text {p : FilePath} (hRoot : p.root = "") (h : ∀ n ∈ p.names, isStep n = true) :
    ofText p.text = p := by
  obtain ⟨root, names⟩ := p
  obtain rfl : root = "" := hRoot
  cases names with
  | nil => rfl
  | cons name names =>
    have hSteps (n : String) (hn : n ∈ name :: names) := isStep_iff.mp (h n hn)
    have hText : text ⟨"", name :: names⟩ = "/".intercalate (name :: names) := by simp [text]
    have hFirst : rootOf ("/".intercalate (name :: names)).toList = "" := by
      have hSplit := splitSlashes_intercalate fun n hn => (hSteps n hn).2
      unfold rootOf
      split <;> first | rfl | skip
      all_goals
        rename_i hChars
        rw [hChars] at hSplit
        have hEmpty : name.toList = [] := by
          simpa [splitSlashes] using (List.cons.inj hSplit).1.symm
        have hName := (hSteps name List.mem_cons_self).1
        simp [isName, hEmpty] at hName
    have hKept : (((name :: names).map String.toList).filter isName).map String.ofList =
        name :: names := by
      rw [List.filter_eq_self.mpr]
      · simp [List.map_map, Function.comp_def]
      · intro part hPart
        obtain ⟨n, hn, rfl⟩ := List.mem_map.mp hPart
        exact (hSteps n hn).1
    rw [hText, ofText, hFirst, splitSlashes_intercalate fun n hn => (hSteps n hn).2, hKept]

end FilePath

-- ---------------------------------------------------------------------------
-- Entries
-- ---------------------------------------------------------------------------

namespace FileNode

/-- What stands in a proper directory is named as entries can be. -/
theorem isEntry_of_areProper {es : List (String × FileNode)} (h : areProper es = true)
    {e : String × FileNode} (he : e ∈ es) :
    FilePath.isEntry e.1 = true ∧ e.2.isProper = true := by
  induction es with
  | nil => cases he
  | cons d es ih =>
    simp only [areProper, Bool.and_eq_true] at h
    rcases List.mem_cons.mp he with rfl | he
    · exact ⟨h.1.1.1, h.1.2⟩
    · exact ih h.2 he

theorem isProper_of_lookup_names {n m : FileNode} (h : n.isProper = true) {names : List String}
    (hm : n.lookup names = some m) : m.isProper = true := by
  induction names generalizing n with
  | nil => exact Option.some.inj hm ▸ h
  | cons name names ih =>
    cases n with
    | file content => cases hm
    | directory es =>
      obtain ⟨d, hd, hm⟩ := Option.bind_eq_some_iff.mp hm
      exact ih (isProper_of_lookup h hd) hm

mutual

/-- The directories below a proper node are reached by names of entries. -/
theorem entries_of_directories {above names : List String} : ∀ n : FileNode, n.isProper = true →
    names ∈ directories above n →
    ∃ more, names = above ++ more ∧ ∀ name ∈ more, FilePath.isEntry name = true
  | .file content, _, h => nomatch h
  | .directory es, hProper, h => by
    rw [directories, List.mem_cons] at h
    rcases h with rfl | h
    · exact ⟨[], (List.append_nil _).symm, by simp⟩
    · exact entries_of_directoriesIn es hProper h

theorem entries_of_directoriesIn {above names : List String} : ∀ es : List (String × FileNode),
    areProper es = true → names ∈ directoriesIn above es →
    ∃ more, names = above ++ more ∧ ∀ name ∈ more, FilePath.isEntry name = true
  | [], _, h => nomatch h
  | (name, n) :: es, hProper, h => by
    obtain ⟨hName, hNode⟩ := isEntry_of_areProper hProper List.mem_cons_self
    rw [directoriesIn, List.mem_append] at h
    simp only [areProper, Bool.and_eq_true] at hProper
    rcases h with h | h
    · obtain ⟨more, rfl, hMore⟩ := entries_of_directories n hNode h
      exact ⟨name :: more, by simp, List.forall_mem_cons.mpr ⟨hName, hMore⟩⟩
    · exact entries_of_directoriesIn es hProper.2 h

end

end FileNode

theorem FileTree.isProper_of_node? {t : FileTree} (h : t.isProper = true) {p : FilePath}
    {n : FileNode} (hn : t.node? p = some n) : n.isProper = true := by
  obtain ⟨place, -, hPlace⟩ := Option.bind_eq_some_iff.mp hn
  exact FileNode.isProper_of_lookup_names (Bool.and_eq_true_iff.mp h).2 hPlace

-- ---------------------------------------------------------------------------
-- Paths that lead on
-- ---------------------------------------------------------------------------

/-- A path leads on from another by names of a kind. -/
def FilePath.Leads (P : String → Prop) (here p : FilePath) : Prop :=
  p.root = here.root ∧ ∃ more, p.names = here.names ++ more ∧ ∀ name ∈ more, P name

namespace FilePath.Leads

variable {P : String → Prop} {here p q : FilePath}

theorem refl (p : FilePath) : Leads P p p := ⟨rfl, [], by simp, by simp⟩

theorem child {name : String} (h : Leads P (here.child name) p) (hName : P name) :
    Leads P here p := by
  obtain ⟨hRoot, more, hNames, hMore⟩ := h
  exact ⟨hRoot, name :: more, by simpa using hNames, List.forall_mem_cons.mpr ⟨hName, hMore⟩⟩

theorem trans (h : Leads P here p) (h' : Leads P p q) : Leads P here q := by
  obtain ⟨hRoot, more, hNames, hMore⟩ := h
  obtain ⟨hRoot', more', hNames', hMore'⟩ := h'
  refine ⟨hRoot'.trans hRoot, more ++ more', by rw [hNames', hNames, List.append_assoc], ?_⟩
  intro name hName
  exact (List.mem_append.mp hName).elim (hMore name) (hMore' name)

/-- Paths that lead on by steps are seen from where they lead on as they are spelled. -/
theorem eq_of_text (hp : Leads (isStep · = true) here p) (hq : Leads (isStep · = true) here q)
    (h : (p.relativeTo here).text = (q.relativeTo here).text) : p = q := by
  obtain ⟨hRoot, more, hNames, hMore⟩ := hp
  obtain ⟨hRoot', more', hNames', hMore'⟩ := hq
  have hSeen : p.relativeTo here = ⟨"", more⟩ ∧ q.relativeTo here = ⟨"", more'⟩ := by
    simp [relativeTo, hNames, hNames']
  rw [hSeen.1, hSeen.2] at h
  have hSame := congrArg ofText h
  rw [ofText_text rfl hMore, ofText_text rfl hMore'] at hSame
  obtain ⟨root, names⟩ := p
  obtain ⟨root', names'⟩ := q
  simp only [FilePath.mk.injEq, true_and] at hSame
  simp only at hRoot hRoot' hNames hNames'
  rw [hRoot, hRoot', hNames, hNames', hSame]

end FilePath.Leads

namespace Glob

/-- A name in the parts of a pattern is one of those they were read from. -/
theorem name_of_partOf {s name : String} (h : partOf s = .ok (.name name)) : s = name := by
  unfold partOf at h
  simp only at h
  split at h <;> try cases h
  split at h <;> try cases h
  split at h <;> cases h
  rfl

/-- A name in a pattern is one that the text of the pattern has. -/
theorem name_of_ofText {text : String} {g : Glob} (h : ofText text = .ok g) {name : String}
    (hName : .name name ∈ g.parts) : name ∈ (FilePath.ofText text).names := by
  unfold ofText at h
  simp only [bind, Except.bind] at h
  split at h
  · cases h
  · split at h
    · cases h
    · cases hParts : (FilePath.ofText text).names.mapM partOf with
      | error why => simp [hParts] at h
      | ok parts =>
        simp only [hParts] at h
        split at h
        · cases h
        · cases h
          obtain ⟨s, hs, hPart⟩ := exists_of_mapM hParts hName
          exact name_of_partOf hPart ▸ hs

section Select

variable {P : String → Prop} {t : FileTree} (hProper : t.isProper = true)
  (hEntry : ∀ name, FilePath.isEntry name = true → P name)

include hProper hEntry

/-- What parts of a pattern select leads on by names of entries and of the parts. -/
theorem leads_selectParts {g : Glob} {parts : List GlobPart}
    (hParts : ∀ name, .name name ∈ parts → P name) {here p : FilePath}
    (hp : p ∈ selectParts t g parts here) : FilePath.Leads P here p := by
  induction parts generalizing here with
  | nil =>
    obtain rfl : p = here := by simpa [selectParts] using hp
    exact .refl p
  | cons part rest ih =>
    have hRest {here : FilePath} (hp : p ∈ selectParts t g rest here) : FilePath.Leads P here p :=
      ih (fun name hName => hParts name (List.mem_cons_of_mem _ hName)) hp
    cases part with
    | name s =>
      rw [selectParts] at hp
      split at hp
      · exact (hRest hp).child (hParts s List.mem_cons_self)
      · cases hp
    | wildcard w =>
      simp only [selectParts, List.mem_flatMap] at hp
      obtain ⟨⟨name, n⟩, hMem, hp⟩ := hp
      split at hp
      · refine (hRest hp).child (hEntry name ?_)
        cases hNode : t.node? here with
        | none => simp [hNode] at hMem
        | some d =>
          have hd := FileTree.isProper_of_node? hProper hNode
          cases d with
          | file content => simp [hNode, FileNode.entries] at hMem
          | directory es =>
            have hThere : (name, n) ∈ es := by simpa [hNode, FileNode.entries] using hMem
            exact (FileNode.isEntry_of_areProper hd hThere).1
      · cases hp
    | anyDirectories =>
      simp only [selectParts, List.mem_eraseDups, List.mem_flatMap] at hp
      obtain ⟨names, hMem, hp⟩ := hp
      cases hNode : t.node? here with
      | none => simp [hNode] at hMem
      | some d =>
        rw [hNode, Option.map_some, Option.getD_some] at hMem
        obtain ⟨more, hNames, hMore⟩ := FileNode.entries_of_directories d
          (FileTree.isProper_of_node? hProper hNode) hMem
        have hHere : FilePath.Leads P here { here with names } :=
          ⟨rfl, more, hNames, fun name hName => hEntry name (hMore name hName)⟩
        exact hHere.trans (hRest hp)

end Select

end Glob

namespace FileTree

/-- Names that do not lead back are added to the place. -/
theorem place_of_entries {t : FileTree} {here names place : List String}
    (hNames : ∀ name ∈ names, FilePath.isEntry name = true) (h : t.follow here names = .ok place) :
    place = here ++ names := by
  induction names generalizing here with
  | nil => simpa [follow, eq_comm] using h
  | cons name names ih =>
    obtain ⟨hName, hRest⟩ := List.forall_mem_cons.mp hNames
    have hOnward : name ≠ ".." := by simpa using (Bool.and_eq_true_iff.mp hName).2
    simp only [follow, if_neg hOnward] at h
    split at h
    · split at h
      · simpa using ih hRest h
      · cases h
    · cases h

end FileTree

namespace Discovery

variable {t : FileTree} {root : FilePath} {patterns exclusions : List String} {ps : List FilePath}

/-- What is found is found once. -/
theorem nodup_found (h : found t root patterns exclusions = .ok ps) : ps.Nodup := by
  unfold found at h
  cases hGlobs : patterns.mapM Glob.ofText with
  | error why => simp [hGlobs, bind, Except.bind] at h
  | ok globs =>
    simp only [hGlobs, bind, Except.bind, pure, Except.pure, Except.ok.injEq] at h
    rw [← h]
    exact List.nodup_mergeSort.mpr (nodup_eraseDups _)

/-- What is found, if it comes in the order of paths. -/
theorem found_of_sorted (globs : List Glob) (hGlobs : patterns.mapM Glob.ofText = .ok globs)
    (hAll : (globs.flatMap (matching t root exclusions)).eraseDups = ps)
    (hSorted : ps.Pairwise fun p q => (!q.precedes p) = true) :
    found t root patterns exclusions = .ok ps := by
  unfold found
  simp only [hGlobs, bind, Except.bind, pure, Except.pure, hAll, List.mergeSort_of_pairwise hSorted]

/-- What is found is selected by a pattern below a directory. -/
theorem exists_glob_of_found (h : found t root patterns exclusions = .ok ps) {p : FilePath}
    (hp : p ∈ ps) :
    ∃ s ∈ patterns, ∃ g, Glob.ofText s = .ok g ∧ t.isDirectory root = true ∧
      p ∈ Glob.selectParts t g g.parts root := by
  unfold found at h
  cases hGlobs : patterns.mapM Glob.ofText with
  | error why => simp [hGlobs, bind, Except.bind] at h
  | ok globs =>
    simp only [hGlobs, bind, Except.bind, pure, Except.pure, Except.ok.injEq] at h
    rw [← h, List.mem_mergeSort, List.mem_eraseDups, List.mem_flatMap] at hp
    obtain ⟨g, hg, hp⟩ := hp
    obtain ⟨s, hs, hText⟩ := exists_of_mapM hGlobs hg
    have hSelected := (List.mem_filter.mp hp).1
    unfold Glob.select at hSelected
    split at hSelected
    · exact ⟨s, hs, g, hText, ‹_›, hSelected⟩
    · cases hSelected

/-- What is found leads on from the directory that is searched, by names of entries and of patterns. -/
theorem leads_found {P : String → Prop} (hProper : t.isProper = true)
    (hEntry : ∀ name, FilePath.isEntry name = true → P name)
    (hPatterns : ∀ s ∈ patterns, ∀ name ∈ (FilePath.ofText s).names, P name)
    (h : found t root patterns exclusions = .ok ps) {p : FilePath} (hp : p ∈ ps) :
    FilePath.Leads P root p := by
  obtain ⟨s, hs, g, hText, -, hSelected⟩ := exists_glob_of_found h hp
  exact Glob.leads_selectParts hProper hEntry
    (fun name hName => hPatterns s hs name (Glob.name_of_ofText hText hName)) hSelected

/-- No two files that are found are spelled alike below the directory that is searched. -/
theorem nodup_names_found (hProper : t.isProper = true)
    (h : found t root patterns exclusions = .ok ps) :
    (ps.map fun p => (p.relativeTo root).text).Nodup := by
  have hLeads (p : FilePath) (hp : p ∈ ps) : FilePath.Leads (FilePath.isStep · = true) root p :=
    leads_found hProper (fun name hName => (Bool.and_eq_true_iff.mp hName).1)
      (fun s _ name hName => FilePath.isStep_of_ofText hName) h hp
  exact (nodup_found h).map_on fun p hp q hq hText => (hLeads p hp).eq_of_text (hLeads q hq) hText

/-- No two of them are one file, unless a pattern leads back. -/
theorem nodup_places_found (hProper : t.isProper = true)
    (hPatterns : ∀ s ∈ patterns, ".." ∉ (FilePath.ofText s).names)
    (h : found t root patterns exclusions = .ok ps) : (ps.map t.locate).Nodup := by
  refine (nodup_found h).map_on fun p hp q hq hSame => ?_
  have hLeads (p : FilePath) (hp : p ∈ ps) : FilePath.Leads (FilePath.isEntry · = true) root p := by
    refine leads_found hProper (fun _ hName => hName) (fun s hs name hName => ?_) h hp
    have hOnward : name ≠ ".." := fun hBack => hPatterns s hs (hBack ▸ hName)
    simpa [FilePath.isEntry, hOnward] using FilePath.isStep_of_ofText hName
  -- the place of a file is that of the directory, and the names below it
  have hPlace (p : FilePath) (hp : p ∈ ps) : ∃ here more, t.follow [] root.names = .ok here ∧
      p = ⟨root.root, root.names ++ more⟩ ∧ t.locate p = .ok (here ++ more) := by
    obtain ⟨place, content, hFile, -⟩ := FileTree.exists_fileAt (isFile_of_mem_found h hp)
    obtain ⟨hRoot, more, hNames, hMore⟩ := hLeads p hp
    have hFollow := hFile
    unfold FileTree.locate at hFollow
    split at hFollow
    · rw [hNames, FileTree.follow_append] at hFollow
      cases hHere : t.follow [] root.names with
      | error why => simp [hHere, Except.bind] at hFollow
      | ok here =>
        simp only [hHere, Except.bind] at hFollow
        obtain rfl := FileTree.place_of_entries hMore hFollow
        obtain ⟨root', names⟩ := p
        obtain rfl : root' = root.root := hRoot
        obtain rfl : names = root.names ++ more := hNames
        exact ⟨here, more, rfl, rfl, hFile⟩
    · cases hFollow
  obtain ⟨here, more, hHere, rfl, hp⟩ := hPlace p hp
  obtain ⟨here', more', hHere', rfl, hq⟩ := hPlace q hq
  obtain rfl : here = here' := Except.ok.inj (hHere.symm.trans hHere')
  obtain rfl : more = more' := List.append_cancel_left (Except.ok.inj (hp.symm.trans (hSame.trans hq)))
  rfl

end Discovery

end SourceMigration
