import SourceMigration.Proofs.Batch.Pointwise
import SourceMigration.Proofs.Files.Unicode

/-!
# SourceMigration — dry runs

A dry run does to every file what a run that writes does, up to the writing. So it gives the same
results and makes the same remarks, and the results tell what a run that writes will leave in each
file: the text of the result where that is edited, and what was there where it is not. An edited text
is another text, and its bytes are other bytes.

## Results

* `encode_ne_of_edited`   — an edited text has other bytes than the file.
* `foretold_migrateFound` — a dry run foretells a run that writes.
* `Foretold.idle_iff`     — no file changes if and only if no result is edited.
-/

namespace SourceMigration

/-- What is edited has another text. -/
theorem Engine.code_of_edited [TreeSitter] {e : Engine} {code : String} {path : Option String}
    (h : (e.run code path).status = .edited) : (e.run code path).code ≠ code := by
  unfold run at h ⊢
  cases hParse : Parsing.parse code with
  | error why => simp [hParse, MigrationResult.failed] at h
  | ok unit =>
    simp only [hParse] at h ⊢
    generalize e.recipe.run _ _ = out at h ⊢
    obtain ⟨outcome, j⟩ := out
    cases outcome with
    | error why => simp [MigrationResult.failed] at h
    | ok migrated =>
      simp only at h ⊢
      split at h
      · cases h
      · rename_i hChanged
        rw [if_neg hChanged]
        simpa using h

namespace Batch

variable {b : Batch} {t : FileTree} {base root p : FilePath} {found : List FilePath}

-- ---------------------------------------------------------------------------
-- Contents that change
-- ---------------------------------------------------------------------------

/-- An edited text has other bytes than the file. -/
theorem encode_ne_of_edited [TreeSitter] {name : String} {content : Bytes}
    (h : (b.outcome name content).status = .edited) :
    Encoding.utf8.encode (b.outcome name content).code ≠ content := by
  unfold outcome at h ⊢
  cases hText : Encoding.utf8.decode content with
  | error why => simp [hText, MigrationResult.ofFileFault] at h
  | ok code =>
    simp only [hText] at h ⊢
    intro hSame
    exact Engine.code_of_edited h
      (Encoding.encode_inj (hSame.trans (Encoding.encode_decode hText).symm))

/-- A run that writes leaves other contents in a file whose result is edited: the text of the
result. -/
theorem content_settledTree_of_edited [TreeSitter] (hDry : b.isDry = false) (hFile : t.isFile p = true)
    (hp : p ∈ found) (h : (b.outcomeAt t base p).status = .edited) :
    (b.settledTree t found).content? p = some (Encoding.utf8.encode (b.outcomeAt t base p).code) ∧
      (b.settledTree t found).content? p ≠ t.content? p := by
  obtain ⟨place, content, hAt⟩ := FileTree.exists_fileAt hFile
  have hPlace : .ok place ∈ found.map t.locate := List.mem_map.mpr ⟨p, hp, hAt.located⟩
  rw [outcomeAt_of_fileAt hAt] at h ⊢
  rw [(settledTree_fileAt hAt hPlace).contents, hAt.contents, settled_of_edited hDry h]
  exact ⟨rfl, fun hSame => encode_ne_of_edited h (Option.some.inj hSame)⟩

/-- All other files keep their contents. -/
theorem content_settledTree_of_not_edited [TreeSitter]
    (h : ∀ q ∈ found, t.locate q = t.locate p → (b.outcomeAt t base q).status ≠ .edited) :
    (b.settledTree t found).content? p = t.content? p := by
  refine FileTree.content?_rewritten fun place content hAt => ?_
  split
  · rename_i hPlace
    obtain ⟨q, hq, hLocated⟩ := List.mem_map.mp hPlace
    have hUnedited := h q hq (hLocated.trans hAt.located.symm)
    rw [outcomeAt_of_fileAt ⟨hLocated, hAt.found⟩] at hUnedited
    exact settled_of_not_edited hUnedited
  · rfl

-- ---------------------------------------------------------------------------
-- Dry runs
-- ---------------------------------------------------------------------------

/-- The report of a dry run foretells that of a run that writes. -/
structure Foretold (t : FileTree) (base : FilePath) (found : List FilePath)
    (dry done : BatchReport) : Prop where
  /-- The results and the remarks are the same. -/
  results : dry.results = done.results
  remarks : dry.remarks = done.remarks
  /-- Nothing is written in the dry run. -/
  untouched : dry.tree = t
  /-- Each file has a result of its own. If that is edited, its text is in the file after the other
  run, and was not there before; all other files keep their contents. -/
  files : ∃ result : FilePath → MigrationResult, done.results.Perm (found.map result) ∧
    (∀ p ∈ found, (result p).name = (p.relativeTo base).text) ∧
    (∀ p ∈ found, (result p).status = .edited →
      done.tree.content? p = some (Encoding.utf8.encode (result p).code) ∧
        done.tree.content? p ≠ t.content? p) ∧
    ∀ p, (∀ q ∈ found, t.locate q = t.locate p → (result q).status ≠ .edited) →
      done.tree.content? p = t.content? p

/-- A dry run foretells a run that writes. -/
theorem foretold_migrateFound [TreeSitter] (hUtf8 : Encoding.ofName? b.settings.encoding = some .utf8)
    (hInPlace : b.destination = none) (hDry : b.isDry = false) (hProper : t.isProper = true)
    (hFiles : ∀ p ∈ found, t.isFile p = true) (hApart : (found.map t.locate).Nodup) :
    Foretold t (baseOf t root) found ({ b with isDry := true }.migrateFound t root found)
      (b.migrateFound t root found) := by
  -- an outcome does not depend on whether a run is dry
  have hForetelling : ({ b with isDry := true } : Batch).migrateFiles (baseOf t root) found t =
      (found.map (b.outcomeAt t (baseOf t root)), _) :=
    migrateFiles_eq (b := { b with isDry := true }) hUtf8 (Or.inl rfl) hProper hFiles (Or.inl rfl) _
  have hWriting := migrateFiles_eq hUtf8 (Or.inr hInPlace) hProper hFiles (Or.inr hApart) (baseOf t root)
  have hTree : (b.migrateFound t root found).tree = b.settledTree t found :=
    (migrateFound_eq hUtf8 (Or.inr hInPlace) hProper hFiles (Or.inr hApart)).2
  refine ⟨?_, ?_, migrateFiles_of_dry rfl _ _ _, b.outcomeAt t (baseOf t root), ?_,
    fun p _ => name_outcomeAt t _ p, ?_, ?_⟩
  · rw [results_migrateFound, results_migrateFound, hForetelling, hWriting]
  · unfold migrateFound
    rw [hForetelling, hWriting]
  · rw [results_migrateFound, hWriting]
    exact perm_inOrder _
  · rw [hTree]
    exact fun p hp => content_settledTree_of_edited hDry (hFiles p hp) hp
  · rw [hTree]
    exact fun p => content_settledTree_of_not_edited

/-- No file changes if and only if no result is edited. -/
theorem Foretold.idle_iff {dry done : BatchReport} (h : Foretold t base found dry done) :
    (∀ p, done.tree.content? p = t.content? p) ↔ ∀ r ∈ done.results, r.status ≠ .edited := by
  obtain ⟨result, hPerm, -, hEdits, hOthers⟩ := h.files
  constructor
  · intro hSame r hr hEdited
    obtain ⟨p, hp, rfl⟩ := List.mem_map.mp (hPerm.mem_iff.mp hr)
    exact (hEdits p hp hEdited).2 (hSame p)
  · exact fun hIdle p => hOthers p fun q hq _ =>
      hIdle _ (hPerm.mem_iff.mpr (List.mem_map_of_mem hq))

end Batch

end SourceMigration
