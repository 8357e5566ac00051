import SourceMigration.Batch
import SourceMigration.Proofs.Files.Selected

/-!
# SourceMigration — batches, file by file

What a batch makes of a file that it writes back is a function of the bytes of that file. Files that
are migrated one after the other do not see each other, as long as no two of the paths lead to one
file, or nothing is written at all.

## Results

* `migrateFile_eq`  — one file gives its outcome, and only its contents are exchanged.
* `migrateFiles_eq` — files one after the other give their outcomes, each as if alone.
* `inOrder_eq`      — results of files of different names are sorted in one way only.
* `migrateFound_eq` — what a batch does to the files that were found.
-/

namespace SourceMigration

/-- The path has no part in what a run makes of a text. -/
theorem Engine.run_path [TreeSitter] (e : Engine) (code : String) (path : Option String) :
    e.run code path = { e.run code none with path } := by
  unfold run
  cases Parsing.parse code with
  | error why => rfl
  | ok unit =>
    simp only
    split
    · rfl
    · split <;> rfl

/-- A text that cannot be parsed fails. -/
theorem Engine.status_of_refused [TreeSitter] (e : Engine) {code : String} {why : Refusal}
    (h : Parsing.parse code = .error why) (path : Option String) :
    (e.run code path).status = .failed := by
  unfold run
  rw [h]
  rfl

namespace Batch

variable (b : Batch)

-- ---------------------------------------------------------------------------
-- What becomes of one file
-- ---------------------------------------------------------------------------

/-- The result of a file of a name with some contents. -/
def outcome [TreeSitter] (name : String) (content : Bytes) : MigrationResult :=
  match Encoding.utf8.decode content with
  | .error why => .ofFileFault name (.undecodable why) []
  | .ok code => b.engine.run code (some name)

/-- The contents of a file after a batch that writes it back. -/
def settled [TreeSitter] (content : Bytes) : Bytes :=
  let r := b.outcome "" content
  if !b.isDry && r.status == .edited then Encoding.utf8.encode r.code else content

section Outcome

variable (name : String) (content : Bytes)

@[simp] theorem name_outcome [TreeSitter] : (b.outcome name content).name = name := by
  unfold outcome
  cases Encoding.utf8.decode content with
  | error why => rfl
  | ok code =>
    simp only [b.engine.run_path code (some name)]
    rfl

/-- The name has no part in the outcome. -/
theorem outcome_name [TreeSitter] : (b.outcome name content).status = (b.outcome "" content).status ∧
    (b.outcome name content).code = (b.outcome "" content).code := by
  unfold outcome
  cases Encoding.utf8.decode content with
  | error why => exact ⟨rfl, rfl⟩
  | ok code =>
    simp only [b.engine.run_path code (some name), b.engine.run_path code (some ""), and_self]

variable {b name content}

/-- What is no text, or cannot be parsed, fails. -/
theorem failed_of_unreadable [TreeSitter]
    (h : ¬ ∃ code unit, Encoding.utf8.decode content = .ok code ∧ Parsing.parse code = .ok unit) :
    (b.outcome name content).status = .failed := by
  unfold outcome
  cases hText : Encoding.utf8.decode content with
  | error why => rfl
  | ok code =>
    cases hParse : Parsing.parse code with
    | ok unit => exact (h ⟨code, unit, hText, hParse⟩).elim
    | error why => exact b.engine.status_of_refused hParse (some name)

theorem settled_of_edited [TreeSitter] (hDry : b.isDry = false)
    (h : (b.outcome name content).status = .edited) :
    b.settled content = Encoding.utf8.encode (b.outcome name content).code := by
  obtain ⟨hStatus, hCode⟩ := b.outcome_name name content
  unfold settled
  simp only [hDry, ← hStatus, h, hCode]
  rfl

theorem settled_of_not_edited [TreeSitter] (h : (b.outcome name content).status ≠ .edited) :
    b.settled content = content := by
  rw [(b.outcome_name name content).1] at h
  unfold settled
  simp [h]

theorem settled_of_dry [TreeSitter] (hDry : b.isDry = true) : b.settled content = content := by
  unfold settled
  simp [hDry]

end Outcome

-- ---------------------------------------------------------------------------
-- Migrating one file
-- ---------------------------------------------------------------------------

section File

variable {b} {t : FileTree} {p : FilePath} {place : List String} {content : Bytes}
  (hUtf8 : Encoding.ofName? b.settings.encoding = some .utf8)

include hUtf8

theorem readText_eq (h : t.FileAt p place content) :
    readText b.settings t p =
      match Encoding.utf8.decode content with
      | .error why => .error (.undecodable why)
      | .ok code => .ok code := by
  unfold readText
  simp only [h.read, hUtf8]
  show (Encoding.utf8.decode content).mapError _ = _
  cases Encoding.utf8.decode content <;> rfl

theorem writeText_eq (text : String) :
    writeText b.settings t p text = t.write p (Encoding.utf8.encode text) := by
  unfold writeText
  rw [hUtf8]

omit hUtf8 in
/-- Only what is edited is written, and not in a dry run. -/
theorem writeResult_eq (hInPlace : b.isDry = true ∨ b.destination = none) (r : MigrationResult) :
    b.writeResult t p r =
      if !b.isDry && r.status == .edited then writeText b.settings t p r.code else .ok t := by
  unfold writeResult
  rcases hInPlace with hDry | hNone
  · simp [hDry]
  · rw [hNone]
    cases b.isDry <;> cases r.status <;> rfl

/-- One file gives its outcome, and only its contents are exchanged. -/
theorem migrateFile_eq [TreeSitter] (hInPlace : b.isDry = true ∨ b.destination = none)
    (hProper : t.isProper = true)
    (h : t.FileAt p place content) (base : FilePath) :
    b.migrateFile base t p = (b.outcome (p.relativeTo base).text content,
      t.rewritten (Function.update (fun _ => id) place fun _ => b.settled content)) := by
  generalize hName : (p.relativeTo base).text = name
  -- contents that stay
  have hSame (hKept : (b.outcome name content).status ≠ .edited ∨ b.isDry = true) :
      t.rewritten (Function.update (fun _ => id) place fun _ => b.settled content) = t := by
    have hSettled : b.settled content = content := hKept.elim settled_of_not_edited settled_of_dry
    calc t.rewritten (Function.update (fun _ => id) place fun _ => b.settled content)
      _ = t.rewritten fun _ => id := FileTree.rewritten_congr hProper fun q c hq => by
        by_cases hPlace : q = place
        · subst hPlace
          obtain rfl : content = c := by simpa using h.found.symm.trans hq
          simp [hSettled]
        · simp [Function.update_of_ne hPlace]
      _ = t := FileTree.rewritten_id
  unfold migrateFile
  simp only [readText_eq hUtf8 h, hName]
  cases hText : Encoding.utf8.decode content with
  | error why =>
    have hOutcome : b.outcome name content = .ofFileFault name (.undecodable why) [] := by
      rw [outcome, hText]
    rw [hSame (Or.inl (by simp [hOutcome, MigrationResult.ofFileFault])), hOutcome]
  | ok code =>
    have hOutcome : b.outcome name content = b.engine.run code (some name) := by
      rw [outcome, hText]
    simp only [← hOutcome, writeResult_eq hInPlace]
    by_cases hEdited : (b.outcome name content).status = .edited
    · cases hDry : b.isDry with
      | true => simp [hSame (Or.inr hDry)]
      | false =>
        simp only [hEdited, writeText_eq hUtf8, h.write hProper, settled_of_edited hDry hEdited]
        rfl
    · rw [hSame (Or.inl hEdited)]
      simp [hEdited]

end File

-- ---------------------------------------------------------------------------
-- Files one after the other
-- ---------------------------------------------------------------------------

/-- The result of the file at a path, given the tree before the batch. -/
def outcomeAt [TreeSitter] (t : FileTree) (base p : FilePath) : MigrationResult :=
  b.outcome (p.relativeTo base).text ((t.content? p).getD [])

/-- The tree after a batch: the contents at the places of the given paths are settled. -/
def settledTree [TreeSitter] (t : FileTree) (ps : List FilePath) : FileTree :=
  t.rewritten fun place content => if .ok place ∈ ps.map t.locate then b.settled content else content

variable {b}

theorem outcomeAt_of_fileAt [TreeSitter] {t : FileTree} {p : FilePath} {place : List String} {content : Bytes}
    (h : t.FileAt p place content) (base : FilePath) :
    b.outcomeAt t base p = b.outcome (p.relativeTo base).text content := by
  rw [outcomeAt, h.contents, Option.getD_some]

/-- A path of the batch finds the settled contents. -/
theorem settledTree_fileAt [TreeSitter] {t : FileTree} {p : FilePath} {place : List String} {content : Bytes}
    {ps : List FilePath} (h : t.FileAt p place content) (hPlace : .ok place ∈ ps.map t.locate) :
    (b.settledTree t ps).FileAt p place (b.settled content) := by
  have hAfter : (b.settledTree t ps).FileAt p place _ := h.rewritten
  rwa [if_pos hPlace] at hAfter

@[simp] theorem name_outcomeAt [TreeSitter] (t : FileTree) (base p : FilePath) :
    (b.outcomeAt t base p).name = (p.relativeTo base).text :=
  b.name_outcome _ _

section Files

variable {t : FileTree} (hUtf8 : Encoding.ofName? b.settings.encoding = some .utf8)
  (hInPlace : b.isDry = true ∨ b.destination = none) (hProper : t.isProper = true)

include hUtf8 hInPlace hProper

/-- Files one after the other give their outcomes, each as if alone, whatever was made of other files
before. -/
theorem migrateFiles_rewritten [TreeSitter] {ps : List FilePath} (hFiles : ∀ p ∈ ps, t.isFile p = true)
    (hApart : b.isDry = true ∨ (ps.map t.locate).Nodup) (base : FilePath)
    {f : List String → Bytes → Bytes}
    (hFresh : ∀ p ∈ ps, ∀ place content, t.FileAt p place content → f place content = content) :
    b.migrateFiles base ps (t.rewritten f) = (ps.map (b.outcomeAt t base),
      t.rewritten fun place content =>
        if .ok place ∈ ps.map t.locate then b.settled content else f place content) := by
  induction ps generalizing f with
  | nil => simp [migrateFiles]
  | cons p ps ih =>
    obtain ⟨hFile, hFiles⟩ := List.forall_mem_cons.mp hFiles
    obtain ⟨hHere, hThere⟩ := List.forall_mem_cons.mp hFresh
    obtain ⟨place, content, hAt⟩ := FileTree.exists_fileAt hFile
    have hNow : (t.rewritten f).FileAt p place content := hHere _ _ hAt ▸ hAt.rewritten
    -- what the files that follow find in place of this one
    have hNext : ∀ q ∈ ps, ∀ place' content', t.FileAt q place' content' →
        Function.update (fun _ => id) place (fun _ => b.settled content) place' (f place' content') =
          content' := by
      intro q hq place' content' hAt'
      rw [hThere q hq place' content' hAt']
      by_cases hPlace : place' = place
      · subst hPlace
        rcases hApart with hDry | hNodup
        · obtain rfl : content = content' := by simpa using hAt.found.symm.trans hAt'.found
          rw [Function.update_self, settled_of_dry hDry]
        · refine absurd ?_ (List.nodup_cons.mp hNodup).1
          exact List.mem_map.mpr ⟨q, hq, hAt'.located.trans hAt.located.symm⟩
      · rw [Function.update_of_ne hPlace]
        rfl
    have hRest : b.isDry = true ∨ (ps.map t.locate).Nodup :=
      hApart.imp_right fun hNodup => (List.nodup_cons.mp hNodup).2
    rw [migrateFiles, migrateFile_eq hUtf8 hInPlace (FileTree.isProper_rewritten.trans hProper) hNow]
    simp only [FileTree.rewritten_rewritten, ih hFiles hRest hNext, List.map_cons,
      outcomeAt_of_fileAt hAt, Prod.mk.injEq, true_and]
    refine FileTree.rewritten_congr hProper fun place' content' hFound => ?_
    by_cases hPlace : place' = place
    · subst hPlace
      obtain rfl : content = content' := by simpa using hAt.found.symm.trans hFound
      simp [hAt.located]
    · have hOther : ¬ Except.ok place' = t.locate p := fun hSame =>
        hPlace (by simpa using hSame.trans hAt.located)
      simp [hOther, Function.update_of_ne hPlace]

/-- Files that are migrated one after the other. -/
theorem migrateFiles_eq [TreeSitter] {ps : List FilePath} (hFiles : ∀ p ∈ ps, t.isFile p = true)
    (hApart : b.isDry = true ∨ (ps.map t.locate).Nodup) (base : FilePath) :
    b.migrateFiles base ps t = (ps.map (b.outcomeAt t base), b.settledTree t ps) := by
  have hAll := migrateFiles_rewritten hUtf8 hInPlace hProper hFiles hApart base
    (f := fun _ => id) fun _ _ _ _ _ => rfl
  rw [FileTree.rewritten_id] at hAll
  exact hAll

end Files

-- ---------------------------------------------------------------------------
-- The order of results
-- ---------------------------------------------------------------------------

/-- Results in the order of their names. -/
def inOrder (rs : List MigrationResult) : List MigrationResult :=
  rs.mergeSort fun r s => !(s.name < r.name)

section Order

variable {rs rs' : List MigrationResult}

theorem pairwise_inOrder (rs : List MigrationResult) :
    (inOrder rs).Pairwise fun r s => r.name ≤ s.name := by
  have hOrder {r s : MigrationResult} : (!decide (s.name < r.name)) = true ↔ r.name ≤ s.name := by
    rw [Bool.not_eq_true', decide_eq_false_iff_not, String.not_lt]
  have hSorted : (inOrder rs).Pairwise fun r s => (!decide (s.name < r.name)) = true := by
    refine List.pairwise_mergeSort (fun r s u hrs hsu => ?_) (fun r s => ?_) rs
    · exact hOrder.mpr (String.le_trans (hOrder.mp hrs) (hOrder.mp hsu))
    · rw [Bool.or_eq_true, hOrder, hOrder]
      exact String.le_total r.name s.name
  exact hSorted.imp hOrder.mp

theorem perm_inOrder (rs : List MigrationResult) : (inOrder rs).Perm rs := List.mergeSort_perm rs _

/-- Results of different names are in the order of their names. -/
theorem ascending_inOrder (h : (rs.map (·.name)).Nodup) :
    ((inOrder rs).map (·.name)).Pairwise (· < ·) := by
  have hNodup : ((inOrder rs).map (·.name)).Nodup := ((perm_inOrder rs).map _).nodup_iff.mpr h
  rw [List.Nodup, List.pairwise_map] at hNodup
  rw [List.pairwise_map]
  refine ((pairwise_inOrder rs).and hNodup).imp fun hBoth => ?_
  by_contra hNot
  exact hBoth.2 (String.le_antisymm hBoth.1 (String.not_lt.mp hNot))

/-- There is one such order only. -/
theorem inOrder_eq (hPerm : rs.Perm rs') (h : (rs.map (·.name)).Nodup) :
    inOrder rs = inOrder rs' := by
  have hAll : (inOrder rs).Perm (inOrder rs') :=
    (perm_inOrder rs).trans (hPerm.trans (perm_inOrder rs').symm)
  refine hAll.eq_of_pairwise (fun r s hr hs hrs hsr => ?_) (pairwise_inOrder rs)
    (pairwise_inOrder rs')
  refine List.inj_on_of_nodup_map h ((perm_inOrder rs).subset hr) ?_ (String.le_antisymm hrs hsr)
  exact hPerm.symm.subset ((perm_inOrder rs').subset hs)

end Order

-- ---------------------------------------------------------------------------
-- Files that were found
-- ---------------------------------------------------------------------------

section Found

variable {t : FileTree} {root : FilePath} {found : List FilePath}

/-- What is found is a file, and no two of the files have one name. -/
theorem files_found {patterns exclusions : List String} (hProper : t.isProper = true)
    (h : Discovery.files t root patterns exclusions = .ok found) :
    (∀ p ∈ found, t.isFile p = true) ∧ found.Nodup ∧
      (found.map fun p => (p.relativeTo (baseOf t root)).text).Nodup := by
  unfold Discovery.files at h
  split at h
  · rename_i hFile
    obtain rfl := Except.ok.inj h
    simpa using hFile
  · refine ⟨fun p hp => Discovery.isFile_of_mem_found h hp, Discovery.nodup_found h, ?_⟩
    cases found with
    | nil => exact List.nodup_nil
    | cons p ps =>
      obtain ⟨_, _, _, _, hDirectory, _⟩ := Discovery.exists_glob_of_found h List.mem_cons_self
      rw [baseOf, if_pos hDirectory]
      exact Discovery.nodup_names_found hProper h

/-- Where no pattern leads back, no two paths lead to one file. -/
theorem apart_of_onward {patterns exclusions : List String} (hProper : t.isProper = true)
    (hPatterns : ∀ s ∈ patterns, ".." ∉ (FilePath.ofText s).names)
    (h : Discovery.files t root patterns exclusions = .ok found) : (found.map t.locate).Nodup := by
  unfold Discovery.files at h
  split at h
  · obtain rfl := Except.ok.inj h
    simp
  · exact Discovery.nodup_places_found hProper hPatterns h

theorem perform_of_found [TreeSitter] {b : Batch}
    (h : Discovery.files t root b.settings.included b.settings.excluded = .ok found) :
    b.perform t root = .ok (b.migrateFound t root found) := by
  unfold perform
  rw [h]
  rfl

theorem results_migrateFound [TreeSitter] (b : Batch) (t : FileTree) (root : FilePath)
    (found : List FilePath) :
    (b.migrateFound t root found).results = inOrder (b.migrateFiles (baseOf t root) found t).1 := rfl

theorem results_migrateFound_nil [TreeSitter] (b : Batch) (t : FileTree) (root : FilePath) :
    (b.migrateFound t root []).results = [] := by
  simp [results_migrateFound, migrateFiles, inOrder]

/-- What a batch does to the files that were found. -/
theorem migrateFound_eq [TreeSitter] (hUtf8 : Encoding.ofName? b.settings.encoding = some .utf8)
    (hInPlace : b.isDry = true ∨ b.destination = none) (hProper : t.isProper = true)
    (hFiles : ∀ p ∈ found, t.isFile p = true)
    (hApart : b.isDry = true ∨ (found.map t.locate).Nodup) :
    (b.migrateFound t root found).results = inOrder (found.map (b.outcomeAt t (baseOf t root))) ∧
      (b.migrateFound t root found).tree = b.settledTree t found := by
  have hAll := migrateFiles_eq hUtf8 hInPlace hProper hFiles hApart (baseOf t root)
  rw [results_migrateFound, hAll]
  refine ⟨rfl, ?_⟩
  unfold migrateFound
  rw [hAll]

end Found

end Batch

end SourceMigration
