import SourceMigration.Files.Glob

/-!
# SourceMigration — discovery

The files that a run is about: a single file, or those below a directory that some pattern
selects and no exclusion fits, each once and in the order of their paths. Exclusions are
wildcards for the whole path below the directory.

## Results

* `isFile_of_mem_found` — what is found below a directory is a file.
-/

namespace SourceMigration

namespace Discovery

/-- Whether an exclusion fits a path below the directory that is searched. -/
def isExcluded (exclusions : List String) (below : FilePath) : Bool :=
  exclusions.any fun e => (Wildcard.ofText e).accepts below.text

/-- The files that one pattern selects and no exclusion fits. -/
def matching (t : FileTree) (root : FilePath) (exclusions : List String) (g : Glob) :
    List FilePath :=
  (g.select t root).filter fun p => t.isFile p && !isExcluded exclusions (p.relativeTo root)

/-- The files that patterns select below a directory. -/
def found (t : FileTree) (root : FilePath) (patterns exclusions : List String) :
    Except GlobFault (List FilePath) := do
  let globs ← patterns.mapM Glob.ofText
  let all := (globs.flatMap (matching t root exclusions)).eraseDups
  pure (all.mergeSort fun p q => !q.precedes p)

/-- The files that a run is about. -/
def files (t : FileTree) (root : FilePath) (patterns exclusions : List String) :
    Except GlobFault (List FilePath) :=
  if t.isFile root then .ok [root] else found t root patterns exclusions

/-- What is found below a directory is a file. -/
theorem isFile_of_mem_found {t : FileTree} {root p : FilePath} {patterns exclusions : List String}
    {ps : List FilePath} (h : found t root patterns exclusions = .ok ps) (hp : p ∈ ps) :
    t.isFile p = true := by
  unfold found at h
  cases hg : patterns.mapM Glob.ofText with
  | error e => rw [hg] at h; cases h
  | ok globs =>
    rw [hg] at h
    cases h
    simp only [List.mem_mergeSort, List.mem_eraseDups, List.mem_flatMap, matching,
      List.mem_filter, Bool.and_eq_true] at hp
    obtain ⟨_, _, _, hfile, _⟩ := hp
    exact hfile

end Discovery

end SourceMigration
