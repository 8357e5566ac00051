import SourceMigration.Proofs.Batch.Pool
import SourceMigration.Proofs.Files.Written

/-!
# SourceMigration — batches that write to another directory

The texts of a batch can go to another directory, each to the path it has below the root. Where that is
does not depend on the other files, so one destination can be another file of the batch, or the
destination of another file. A file that is no destination keeps its contents whatever the other tasks
do, and a destination that no two files share holds the text of its own.

## Results

* `Mirroring.moved`   — what is known of a moment is known after one step of any task.
* `mirroring_reaches` — any steps of any tasks.
* `exists_mirrored`   — one task after the other is one of the orders.
* `aside_of_apart`    — between directories of which neither is in the other, no destination is shared.
* `mirror_settles`    — what a batch does to its files and its destinations, in any order of its tasks.
-/

namespace SourceMigration

-- ---------------------------------------------------------------------------
-- Where texts go
-- ---------------------------------------------------------------------------

/-- Where a batch writes the text of a file. -/
def FilePath.mirroredIn (p out base : FilePath) : FilePath := out.join (p.relativeTo base)

/-- A path that leads on, as seen from there, and its destination. -/
theorem FilePath.relativeTo_of_leads {P : String → Prop} {base p : FilePath} (out : FilePath)
    (h : FilePath.Leads P base p) :
    ∃ more, p.root = base.root ∧ p.names = base.names ++ more ∧ p.relativeTo base = ⟨"", more⟩ ∧
      p.mirroredIn out base = ⟨out.root, out.names ++ more⟩ ∧ ∀ name ∈ more, P name := by
  obtain ⟨hRoot, more, hNames, hMore⟩ := h
  have hSeen : p.relativeTo base = ⟨"", more⟩ := by simp [FilePath.relativeTo, hNames]
  exact ⟨more, hRoot, hNames, hSeen, by simp [FilePath.mirroredIn, FilePath.join, hSeen], hMore⟩

theorem FilePath.ofText_of_leads {base p : FilePath} (h : FilePath.Leads (FilePath.isStep · = true) base p) :
    FilePath.ofText (p.relativeTo base).text = p.relativeTo base := by
  obtain ⟨more, -, -, hSeen, -, hMore⟩ := relativeTo_of_leads {} h
  rw [hSeen, FilePath.ofText_text rfl hMore]

namespace Batch

/-- No destination is the place of this file. -/
def Spared (out base : FilePath) (found : List FilePath) (p : FilePath) : Prop :=
  ∀ q ∈ found, (q.mirroredIn out base).settled? ≠ p.settled?

/-- No other file has the destination of this one. -/
def Unshared (out base : FilePath) (found : List FilePath) (p : FilePath) : Prop :=
  ∀ q ∈ found, (q.mirroredIn out base).settled? = (p.mirroredIn out base).settled? → q = p

section Found

variable {t : FileTree} {root base p : FilePath} {found : List FilePath} {P : String → Prop}
  {patterns exclusions : List String}

/-- What is found leads on from the directory that results are named from. -/
theorem leads_files (hProper : t.isProper = true) (hEntry : ∀ name, FilePath.isEntry name = true → P name)
    (hPatterns : ∀ s ∈ patterns, ∀ name ∈ (FilePath.ofText s).names, P name)
    (h : Discovery.files t root patterns exclusions = .ok found) (hp : p ∈ found) :
    FilePath.Leads P (baseOf t root) p ∧ p ≠ baseOf t root := by
  have hFile := (files_found hProper h).1 p hp
  obtain ⟨place, content, hAt⟩ := FileTree.exists_fileAt hFile
  have hNotDirectory : t.isDirectory p = false := by
    unfold FileTree.isDirectory
    rw [hAt.node]
    rfl
  unfold Discovery.files at h
  split at h
  · obtain rfl := Except.ok.inj h
    obtain rfl := List.mem_singleton.mp hp
    obtain ⟨front, name, hNames, hName⟩ := hAt.exists_name hProper
    rw [baseOf, if_neg (by simp [hNotDirectory])]
    refine ⟨⟨rfl, [name], ?_, by simpa using hEntry name hName⟩, fun hSame => ?_⟩
    · rw [FilePath.parent, hNames, List.dropLast_concat]
    · have hLengths := congrArg (List.length ∘ FilePath.names) hSame
      simp [FilePath.parent, hNames] at hLengths
  · obtain ⟨_, _, _, _, hDirectory, _⟩ := Discovery.exists_glob_of_found h hp
    rw [baseOf, if_pos hDirectory]
    refine ⟨Discovery.leads_found hProper hEntry hPatterns h hp, ?_⟩
    rintro rfl
    rw [hDirectory] at hNotDirectory
    cases hNotDirectory

/-- A destination ends in the name of its file. -/
theorem onward_of_leads (out : FilePath) (hProper : t.isProper = true) (hFile : t.isFile p = true)
    (h : FilePath.Leads P base p) (hBelow : p ≠ base) :
    (p.mirroredIn out base).names.getLast? ≠ some ".." := by
  obtain ⟨more, hRoot, hNames, -, hTarget, -⟩ := FilePath.relativeTo_of_leads out h
  obtain ⟨place, content, hAt⟩ := FileTree.exists_fileAt hFile
  obtain ⟨front, name, hLast, hName⟩ := hAt.exists_name hProper
  have hSome : more ≠ [] := by
    rintro rfl
    refine hBelow ?_
    obtain ⟨root, names⟩ := p
    obtain ⟨root', names'⟩ := base
    simp_all
  have hEnd : (out.names ++ more).getLast? = some name := by
    rw [List.getLast?_append_of_ne_nil _ hSome, ← List.getLast?_append_of_ne_nil base.names hSome,
      ← hNames, hLast, List.getLast?_concat]
  rw [hTarget, hEnd]
  rintro hDots
  rw [Option.some.inj hDots] at hName
  exact absurd hName (by decide)

end Found

/-- Neither of two directories is in the other. -/
def Apart (p q : FilePath) : Prop :=
  ∃ here there, p.settled? = some here ∧ q.settled? = some there ∧ ¬ here <+: there ∧ ¬ there <+: here

/-- Between directories of which neither is in the other, no destination is a file of the batch, and
none is shared. -/
theorem aside_of_apart {out base : FilePath} {found : List FilePath} (hApart : Apart out base)
    (hLeads : ∀ p ∈ found, FilePath.Leads (· ≠ "..") base p) {p : FilePath} (hp : p ∈ found) :
    Spared out base found p ∧ Unshared out base found p := by
  obtain ⟨here, there, hHere, hThere, hNotIn, hNotOut⟩ := hApart
  have hPlaces (q : FilePath) (hq : q ∈ found) : ∃ more, q.root = base.root ∧
      q.names = base.names ++ more ∧ q.settled? = some (there ++ more) ∧
      (q.mirroredIn out base).settled? = some (here ++ more) := by
    obtain ⟨more, hRoot, hNames, -, hTarget, hMore⟩ := FilePath.relativeTo_of_leads out (hLeads q hq)
    obtain rfl : q = ⟨base.root, base.names ++ more⟩ := by
      rw [← hRoot, ← hNames]
    exact ⟨more, rfl, rfl, FilePath.settled?_append hThere hMore,
      hTarget ▸ FilePath.settled?_append hHere hMore⟩
  obtain ⟨more, hRoot, hNames, hSource, hTarget⟩ := hPlaces p hp
  constructor
  · intro q hq hSame
    obtain ⟨more', -, -, -, hTarget'⟩ := hPlaces q hq
    rw [hTarget', hSource, Option.some.injEq] at hSame
    rcases List.prefix_or_prefix_of_prefix (List.prefix_append here more')
      (hSame ▸ List.prefix_append there more) with hIn | hIn
    · exact hNotIn hIn
    · exact hNotOut hIn
  · intro q hq hSame
    obtain ⟨more', hRoot', hNames', -, hTarget'⟩ := hPlaces q hq
    rw [hTarget', hTarget, Option.some.injEq] at hSame
    obtain rfl := List.append_cancel_left hSame
    obtain ⟨root, names⟩ := p
    obtain ⟨root', names'⟩ := q
    simp_all

end Batch

-- ---------------------------------------------------------------------------
-- Steps of tasks
-- ---------------------------------------------------------------------------

section Tasks

variable [TreeSitter]

namespace Pool

/-- The next step of a task whose text goes to another directory. -/
def advanceTo (b : Batch) (out base : FilePath) (pool : Pool) (p : FilePath) : Pool :=
  let name := (p.relativeTo base).text
  let target := out.join (FilePath.ofText name)
  match pool.stage p with
  | .waiting =>
    match Batch.readText b.settings pool.tree p with
    | .error why => pool.finish p (.ofFileFault name why [])
    | .ok code =>
      let r := b.engine.run code (some name)
      if r.status == .failed then pool.finish p r
      else { pool with stage := Function.update pool.stage p (.migrated r) }
  | .migrated r =>
    match (pool.tree.makeDirectories target.parent).bind (·.write target []) with
    | .error why => pool.finish p (.ofFileFault name why r.remarks)
    | .ok tree => { pool with tree, stage := Function.update pool.stage p (.opened r) }
  | .opened r =>
    match Batch.writeText b.settings pool.tree target r.code with
    | .error why => pool.finish p (.ofFileFault name why r.remarks)
    | .ok tree => { pool with tree }.finish p r
  | .done _ => pool

section Equations

variable {b : Batch} {out base : FilePath} {pool : Pool} {p : FilePath} {r : MigrationResult}

theorem advanceTo_of_waiting (h : pool.stage p = .waiting) :
    pool.advanceTo b out base p =
      match Batch.readText b.settings pool.tree p with
      | .error why => pool.finish p (.ofFileFault (p.relativeTo base).text why [])
      | .ok code =>
        let r := b.engine.run code (some (p.relativeTo base).text)
        if r.status == .failed then pool.finish p r
        else { pool with stage := Function.update pool.stage p (.migrated r) } := by
  unfold advanceTo
  simp only [h]

theorem advanceTo_of_done (h : pool.stage p = .done r) : pool.advanceTo b out base p = pool := by
  unfold advanceTo
  simp only [h]

variable (hText : FilePath.ofText (p.relativeTo base).text = p.relativeTo base)

include hText

theorem advanceTo_of_migrated (h : pool.stage p = .migrated r) :
    pool.advanceTo b out base p =
      match (pool.tree.makeDirectories (p.mirroredIn out base).parent).bind
          (·.write (p.mirroredIn out base) []) with
      | .error why => pool.finish p (.ofFileFault (p.relativeTo base).text why r.remarks)
      | .ok tree => { pool with tree, stage := Function.update pool.stage p (.opened r) } := by
  unfold advanceTo
  simp only [h, hText]
  rfl

theorem advanceTo_of_opened (h : pool.stage p = .opened r) :
    pool.advanceTo b out base p =
      match Batch.writeText b.settings pool.tree (p.mirroredIn out base) r.code with
      | .error why => pool.finish p (.ofFileFault (p.relativeTo base).text why r.remarks)
      | .ok tree => { pool with tree }.finish p r := by
  unfold advanceTo
  simp only [h, hText]
  rfl

end Equations

/-- The pools that steps of tasks lead to, in any order. Directories on the way to a destination may be
made before the step that opens the destination. -/
inductive Mirrors (b : Batch) (t : FileTree) (out base : FilePath) (found : List FilePath) : Pool → Prop
  | start : Mirrors b t out base found { tree := t }
  | step {pool : Pool} {p : FilePath} (h : Mirrors b t out base found pool) (hp : p ∈ found) :
    Mirrors b t out base found (pool.advanceTo b out base p)
  | ahead {pool : Pool} {p d : FilePath} {tree : FileTree} (h : Mirrors b t out base found pool)
    (hp : p ∈ found) (hWay : d.root = out.root ∧ d.names <+: (p.mirroredIn out base).parent.names)
    (hMade : pool.tree.makeDirectory d = .ok tree) (hThere : tree.isDirectory d = true) :
    Mirrors b t out base found { pool with tree }

end Pool

/-- What the task of a file has written so far. -/
def Stage.written? : Stage → Option Bytes
  | .waiting | .migrated _ => none
  | .opened _ => some []
  | .done r => if r.status = .failed then none else some (Encoding.utf8.encode r.code)

namespace Batch

/-- A result is the outcome of a file, or tells why that could not be written. -/
def EndsWith (b : Batch) (t : FileTree) (base p : FilePath) (r : MigrationResult) : Prop :=
  r = b.outcomeAt t base p ∨
    ∃ why, r = .ofFileFault (p.relativeTo base).text why (b.outcomeAt t base p).remarks

/-- The stages of a file whose text goes to another directory. What a spared file comes to is known. -/
def Expects (b : Batch) (t : FileTree) (out base : FilePath) (found : List FilePath) (p : FilePath) :
    Stage → Prop
  | .waiting => True
  | .migrated r | .opened r => r.name = (p.relativeTo base).text ∧ r.status ≠ .failed ∧
    (Spared out base found p → r = b.outcomeAt t base p)
  | .done r => r.name = (p.relativeTo base).text ∧
    (Spared out base found p → b.EndsWith t base p r)

/-- A moment in the run of a pool: every place is as it was, or a directory was made there, or it is the
destination of a file that was written, and destinations that are not shared hold what was written. -/
structure Mirroring (b : Batch) (t : FileTree) (out base : FilePath) (found : List FilePath)
    (pool : Pool) : Prop where
  standing : ∀ place, pool.tree.standing place = t.standing place ∨
    t.standing place = .nothing ∧ pool.tree.standing place = .directory ∨
    t.standing place ≠ .directory ∧ (∃ content, pool.tree.standing place = .file content) ∧
      ∃ p ∈ found, (pool.stage p).written?.isSome = true ∧
        (p.mirroredIn out base).settled? = some place
  written : ∀ p ∈ found, ∀ content, (pool.stage p).written? = some content →
    ∃ place now, pool.tree.FileAt (p.mirroredIn out base) place now ∧
      (Unshared out base found p → now = content)
  expects : ∀ p ∈ found, b.Expects t out base found p (pool.stage p)
  results : pool.results.Perm (found.filterMap fun p => (pool.stage p).result?)

section Steps

variable {b : Batch} {t : FileTree} {out base : FilePath} {found : List FilePath} {pool : Pool}
  {p : FilePath} {place : List String} {content : Bytes}

theorem name_run (e : Engine) (code name : String) : (e.run code (some name)).name = name := by
  rw [e.run_path code (some name)]
  rfl

theorem Mirroring.growsTo (h : b.Mirroring t out base found pool) : t.GrowsTo pool.tree where
  directory q hDirectory := by
    have hPlace := h.standing q
    grind
  file q content hFile := by
    have hPlace := h.standing q
    grind

/-- A spared file keeps its contents. -/
theorem Mirroring.fileAt (h : b.Mirroring t out base found pool) (hSpared : Spared out base found p)
    (hAt : t.FileAt p place content) : pool.tree.FileAt p place content := by
  refine ⟨h.growsTo.locate hAt.located, FileNode.standing_eq_file.mp ?_⟩
  rcases h.standing place with hSame | ⟨hNothing, -⟩ | ⟨-, -, q, hq, -, hPlace⟩
  · exact hSame.trans hAt.standing
  · rw [hAt.standing] at hNothing
    cases hNothing
  · exact absurd (hPlace.trans hAt.settled.symm) (hSpared q hq)

/-- What was read of a spared file is its text. -/
theorem Mirroring.readText (hUtf8 : Encoding.ofName? b.settings.encoding = some .utf8)
    (h : b.Mirroring t out base found pool) (hFile : t.isFile p = true)
    (hSpared : Spared out base found p) :
    match readText b.settings pool.tree p with
    | .error why => b.outcomeAt t base p = .ofFileFault (p.relativeTo base).text why []
    | .ok code => b.outcomeAt t base p = b.engine.run code (some (p.relativeTo base).text) := by
  obtain ⟨place, content, hAt⟩ := FileTree.exists_fileAt hFile
  rw [readText_eq hUtf8 (h.fileAt hSpared hAt), outcomeAt_of_fileAt hAt, outcome]
  cases Encoding.utf8.decode content <;> rfl

/-- What the next step of a task does: nothing if it is done, and otherwise it brings the task to
another stage on its way, and writes to no place but its destination. -/
theorem advanceTo_cases (hUtf8 : Encoding.ofName? b.settings.encoding = some .utf8)
    (hFile : t.isFile p = true)
    (hText : FilePath.ofText (p.relativeTo base).text = p.relativeTo base)
    (hOnward : (p.mirroredIn out base).names.getLast? ≠ some "..")
    (hTop : t.standing [] = .directory)
    (h : b.Mirroring t out base found pool) (hp : p ∈ found) :
    ((pool.stage p).result?.isSome = true ∧ pool.advanceTo b out base p = pool) ∨
      ((pool.stage p).result?.isSome = false ∧ ∃ s : Stage, b.Expects t out base found p s ∧
        (pool.advanceTo b out base p).stage = Function.update pool.stage p s ∧
        (pool.advanceTo b out base p).results = pool.results ++ s.result?.toList ∧
        ((pool.stage p).written? = none ∧ s.written? = none ∧
            (pool.advanceTo b out base p).tree = pool.tree ∨
          ∃ place content, s.written? = some content ∧
            pool.tree.Wrote (pool.advanceTo b out base p).tree (p.mirroredIn out base) place
              content)) := by
  have hExpects := h.expects p hp
  have hRead := h.readText hUtf8 hFile
  cases hStage : pool.stage p with
  | waiting =>
    rw [Pool.advanceTo_of_waiting hStage]
    refine Or.inr ⟨rfl, ?_⟩
    cases hCode : Batch.readText b.settings pool.tree p with
    | error why =>
      simp only [hCode] at hRead ⊢
      exact ⟨.done _, ⟨rfl, fun hSpared => Or.inl (hRead hSpared).symm⟩, rfl, rfl,
        Or.inl ⟨rfl, rfl, rfl⟩⟩
    | ok code =>
      simp only [hCode] at hRead ⊢
      have hName := name_run b.engine code (p.relativeTo base).text
      split
      · rename_i hFailed
        refine ⟨.done _, ⟨hName, fun hSpared => Or.inl (hRead hSpared).symm⟩, rfl, rfl,
          Or.inl ⟨rfl, ?_, rfl⟩⟩
        rw [Stage.written?, if_pos (by simpa using hFailed)]
      · rename_i hMigrated
        exact ⟨.migrated _, ⟨hName, fun hFailed => hMigrated (by simp [hFailed]),
          fun hSpared => (hRead hSpared).symm⟩,
          rfl, (List.append_nil _).symm, Or.inl ⟨rfl, rfl, rfl⟩⟩
  | migrated r =>
    rw [hStage] at hExpects
    obtain ⟨hName, hStatus, hOutcome⟩ := hExpects
    rw [Pool.advanceTo_of_migrated hText hStage]
    refine Or.inr ⟨rfl, ?_⟩
    cases hOpen : (pool.tree.makeDirectories (p.mirroredIn out base).parent).bind
        (·.write (p.mirroredIn out base) []) with
    | error why =>
      exact ⟨.done _, ⟨rfl, fun hSpared => Or.inr ⟨why, by rw [hOutcome hSpared]⟩⟩, rfl, rfl,
        Or.inl ⟨rfl, rfl, rfl⟩⟩
    | ok tree =>
      refine ⟨.opened r, ⟨hName, hStatus, hOutcome⟩, rfl, (List.append_nil _).symm, Or.inr ?_⟩
      cases hMake : pool.tree.makeDirectories (p.mirroredIn out base).parent with
      | error why => simp [hMake, Except.bind] at hOpen
      | ok above =>
        simp only [hMake, Except.bind] at hOpen
        obtain ⟨hThere, place, -, hWrote⟩ := FileTree.wrote_of_write hOnward hOpen
        exact ⟨place, [], rfl, (FileTree.made_of_makeDirectories hMake hThere).wrote hWrote⟩
  | opened r =>
    have hOpened := h.written p hp [] (by rw [hStage]; rfl)
    rw [hStage] at hExpects
    obtain ⟨hName, hStatus, hOutcome⟩ := hExpects
    obtain ⟨place, now, hAt, -⟩ := hOpened
    have hTopNow : pool.tree.top.isDirectory = true := by
      obtain ⟨es, hEntries⟩ := FileNode.standing_eq_directory.mp (h.growsTo.directory [] hTop)
      rw [Option.some.inj hEntries]
      rfl
    obtain ⟨hWrite, hWrote⟩ := hAt.exists_wrote hOnward hTopNow (Encoding.utf8.encode r.code)
    rw [Pool.advanceTo_of_opened hText hStage, writeText_eq hUtf8, hWrite]
    refine Or.inr ⟨rfl, .done r, ⟨hName, fun hSpared => Or.inl (hOutcome hSpared)⟩, rfl, rfl,
      Or.inr ⟨place, _, ?_, hWrote⟩⟩
    rw [Stage.written?, if_neg hStatus]
  | done r => exact Or.inl ⟨rfl, Pool.advanceTo_of_done hStage⟩

section Moved

variable {pool' : Pool} {s : Stage} (h : b.Mirroring t out base found pool) (hp : p ∈ found)
  (hStage : pool'.stage = Function.update pool.stage p s)

include h hp hStage

/-- Every place after a task has come to another stage. -/
theorem Mirroring.standing_moved
    (hTree : (pool.stage p).written? = none ∧ s.written? = none ∧ pool'.tree = pool.tree ∨
      ∃ place content, s.written? = some content ∧
        pool.tree.Wrote pool'.tree (p.mirroredIn out base) place content) (q : List String) :
    pool'.tree.standing q = t.standing q ∨
      t.standing q = .nothing ∧ pool'.tree.standing q = .directory ∨
      t.standing q ≠ .directory ∧ (∃ content, pool'.tree.standing q = .file content) ∧
        ∃ p ∈ found, (pool'.stage p).written?.isSome = true ∧
          (p.mirroredIn out base).settled? = some q := by
  -- who has written has written still
  have hStill : ∀ q, (pool.stage q).written?.isSome = true → (pool'.stage q).written?.isSome = true := by
    intro q hq
    rw [hStage]
    by_cases hTask : q = p
    · subst hTask
      rw [Function.update_self]
      rcases hTree with ⟨hNone, -⟩ | ⟨_, _, hSome, -⟩
      · simp [hNone] at hq
      · rw [hSome, Option.isSome_some]
    · rwa [Function.update_of_ne hTask]
  have hBefore := h.standing q
  rcases hTree with ⟨-, -, hSame⟩ | ⟨place, content, hSome, hWrote⟩
  · rw [hSame]
    refine hBefore.imp_right (Or.imp_right fun hWrote => ?_)
    obtain ⟨hFree, hFile, p', hp', hWritten, hPlace⟩ := hWrote
    exact ⟨hFree, hFile, p', hp', hStill p' hWritten, hPlace⟩
  · by_cases hHere : q = place
    · subst hHere
      refine Or.inr (Or.inr ⟨fun hDirectory => ?_, ⟨content, hWrote.fileAt.standing⟩, p, hp, ?_,
        hWrote.fileAt.settled⟩)
      · exact hWrote.before (h.growsTo.directory q hDirectory)
      · rw [hStage, Function.update_self, hSome, Option.isSome_some]
    · have hOther := hWrote.others q hHere
      rcases hBefore with hSame | ⟨hNothing, hMade⟩ | ⟨hFree, ⟨old, hFile⟩, p', hp', hWritten, hPlace⟩
      · rw [hSame] at hOther
        exact hOther.imp_right Or.inl
      · rw [hMade] at hOther
        exact Or.inr (Or.inl ⟨hNothing, by simpa using hOther⟩)
      · rw [hFile] at hOther
        exact Or.inr (Or.inr ⟨hFree, ⟨old, by simpa using hOther⟩, p', hp', hStill p' hWritten, hPlace⟩)

/-- Every destination after a task has come to another stage. -/
theorem Mirroring.written_moved
    (hTree : (pool.stage p).written? = none ∧ s.written? = none ∧ pool'.tree = pool.tree ∨
      ∃ place content, s.written? = some content ∧
        pool.tree.Wrote pool'.tree (p.mirroredIn out base) place content) {q : FilePath} (hq : q ∈ found)
    (hContent : (pool'.stage q).written? = some content) :
    ∃ place now, pool'.tree.FileAt (q.mirroredIn out base) place now ∧
      (Unshared out base found q → now = content) := by
  rw [hStage] at hContent
  by_cases hTask : q = p
  · subst hTask
    rw [Function.update_self] at hContent
    rcases hTree with ⟨-, hNone, -⟩ | ⟨place, content', hSome, hWrote⟩
    · simp [hNone] at hContent
    · obtain rfl : content' = content := Option.some.inj (hSome.symm.trans hContent)
      exact ⟨place, content', hWrote.fileAt, fun _ => rfl⟩
  · rw [Function.update_of_ne hTask] at hContent
    obtain ⟨place, now, hAt, hNow⟩ := h.written q hq content hContent
    rcases hTree with ⟨-, -, hSame⟩ | ⟨place', content', -, hWrote⟩
    · rw [hSame]
      exact ⟨place, now, hAt, hNow⟩
    · obtain ⟨later, hLater⟩ := hWrote.growsTo.fileAt hAt
      refine ⟨place, later, hLater, fun hAlone => ?_⟩
      have hElsewhere : place ≠ place' := by
        rintro rfl
        exact hTask (hAlone p hp (hWrote.fileAt.settled.trans hAt.settled.symm)).symm
      have hOther := hWrote.others place hElsewhere
      rw [hAt.standing, hLater.standing] at hOther
      rw [← hNow hAlone]
      simpa using hOther

/-- The results after a task has come to another stage. -/
theorem Mirroring.results_moved (hNodup : found.Nodup)
    (hOpen : (pool.stage p).result?.isSome = false)
    (hMore : pool'.results = pool.results ++ s.result?.toList) :
    pool'.results.Perm (found.filterMap fun p => (pool'.stage p).result?) := by
  obtain ⟨before, after, rfl⟩ := List.append_of_mem hp
  have hElse {q : FilePath} (hq : q ∈ before ∨ q ∈ after) :
      (pool'.stage q).result? = (pool.stage q).result? := by
    rw [hStage, Function.update_of_ne]
    rintro rfl
    simp [List.nodup_append] at hNodup
    grind
  have hResults := h.results
  rw [Option.isSome_eq_false_iff, Option.isNone_iff_eq_none] at hOpen
  rw [List.filterMap_append, List.filterMap_cons, hOpen] at hResults
  rw [hMore, List.filterMap_append, List.filterMap_cons,
    List.filterMap_congr fun q hq => hElse (Or.inl hq),
    List.filterMap_congr fun q hq => hElse (Or.inr hq), hStage, Function.update_self]
  cases s.result? with
  | none => simpa using hResults
  | some r =>
    exact (hResults.append_right _).trans (List.perm_append_singleton r _ |>.trans
      List.perm_middle.symm)

end Moved

/-- One step of any task. -/
theorem Mirroring.moved (hUtf8 : Encoding.ofName? b.settings.encoding = some .utf8)
    (hFile : t.isFile p = true)
    (hText : FilePath.ofText (p.relativeTo base).text = p.relativeTo base)
    (hOnward : (p.mirroredIn out base).names.getLast? ≠ some "..")
    (hTop : t.standing [] = .directory) (hNodup : found.Nodup)
    (h : b.Mirroring t out base found pool) (hp : p ∈ found) :
    b.Mirroring t out base found (pool.advanceTo b out base p) := by
  rcases advanceTo_cases hUtf8 hFile hText hOnward hTop h hp with
    ⟨-, hSame⟩ | ⟨hOpen, s, hExpects, hStage, hMore, hTree⟩
  · rwa [hSame]
  · refine ⟨h.standing_moved hp hStage hTree, fun q hq content hContent =>
      h.written_moved hp hStage hTree hq hContent, fun q hq => ?_,
      h.results_moved hp hStage hNodup hOpen hMore⟩
    rw [hStage]
    by_cases hTask : q = p
    · subst hTask
      rwa [Function.update_self]
    · rw [Function.update_of_ne hTask]
      exact h.expects q hq

/-- A directory that is made ahead. -/
theorem Mirroring.ahead {tree : FileTree} (h : b.Mirroring t out base found pool)
    (hMade : pool.tree.Made tree) : b.Mirroring t out base found { pool with tree } := by
  refine ⟨fun q => ?_, fun q hq content hContent => ?_, h.expects, h.results⟩
  · have hPlace := h.standing q
    have hNow := hMade q
    simp only
    grind
  · obtain ⟨place, now, hAt, hNow⟩ := h.written q hq content hContent
    obtain ⟨later, hLater⟩ := hMade.growsTo.fileAt hAt
    refine ⟨place, later, hLater, fun hAlone => ?_⟩
    have hOther := hMade place
    rw [hAt.standing, hLater.standing] at hOther
    rw [← hNow hAlone]
    simpa using hOther

/-- Any steps of any tasks. -/
theorem mirroring_reaches (hUtf8 : Encoding.ofName? b.settings.encoding = some .utf8)
    (hFiles : ∀ p ∈ found, t.isFile p = true)
    (hTexts : ∀ p ∈ found, FilePath.ofText (p.relativeTo base).text = p.relativeTo base)
    (hOnward : ∀ p ∈ found, (p.mirroredIn out base).names.getLast? ≠ some "..")
    (hTop : t.standing [] = .directory) (hNodup : found.Nodup)
    (h : Pool.Mirrors b t out base found pool) : b.Mirroring t out base found pool := by
  induction h with
  | start =>
    refine ⟨fun _ => Or.inl rfl, fun _ _ _ hNone => ?_, fun _ _ => trivial, ?_⟩
    · cases hNone
    · simp [Stage.result?]
  | step h hp ih => exact ih.moved hUtf8 (hFiles _ hp) (hTexts _ hp) (hOnward _ hp) hTop hNodup hp
  | ahead h hp hWay hMade hThere ih => exact ih.ahead (FileTree.made_of_makeDirectory hMade hThere).1

-- ---------------------------------------------------------------------------
-- One task after the other
-- ---------------------------------------------------------------------------

/-- One file is migrated and its text is written to the other directory. -/
theorem migrateFile_to (hUtf8 : Encoding.ofName? b.settings.encoding = some .utf8)
    (hMirror : b.destination = some out) (hDry : b.isDry = false)
    (hText : FilePath.ofText (p.relativeTo base).text = p.relativeTo base) (t : FileTree) :
    b.migrateFile base t p =
      match readText b.settings t p with
      | .error why => (.ofFileFault (p.relativeTo base).text why [], t)
      | .ok code =>
        let r := b.engine.run code (some (p.relativeTo base).text)
        if r.status == .failed then (r, t)
        else
          match (t.makeDirectories (p.mirroredIn out base).parent).bind
              (·.write (p.mirroredIn out base) (Encoding.utf8.encode r.code)) with
          | .error why => (.ofFileFault (p.relativeTo base).text why r.remarks, t)
          | .ok tree => (r, tree) := by
  unfold migrateFile
  cases readText b.settings t p with
  | error why => rfl
  | ok code =>
    simp only [writeResult, hDry, Bool.false_or, hMirror, name_run, hText]
    cases (b.engine.run code (some (p.relativeTo base).text)).status == .failed with
    | true => rfl
    | false =>
      simp only [writeText_eq hUtf8]
      rfl

section Task

variable (hUtf8 : Encoding.ofName? b.settings.encoding = some .utf8)
  (hMirror : b.destination = some out) (hDry : b.isDry = false)

include hUtf8 hMirror hDry

/-- The three steps of a task, taken in a row, migrate its file. -/
theorem exists_migrated (hText : FilePath.ofText (p.relativeTo base).text = p.relativeTo base)
    (hOnward : (p.mirroredIn out base).names.getLast? ≠ some "..")
    (h : Pool.Mirrors b t out base found pool) (hp : p ∈ found) (hWaiting : pool.stage p = .waiting) :
    ∃ pool', Pool.Mirrors b t out base found pool' ∧
      pool'.tree = (b.migrateFile base pool.tree p).2 ∧
      pool'.results = pool.results ++ [(b.migrateFile base pool.tree p).1] ∧
      (pool'.stage p).result?.isSome = true ∧ ∀ q, q ≠ p → pool'.stage q = pool.stage q := by
  rw [migrateFile_to hUtf8 hMirror hDry hText]
  have hFirst := h.step hp
  rw [Pool.advanceTo_of_waiting hWaiting] at hFirst
  cases hRead : readText b.settings pool.tree p with
  | error why =>
    simp only [hRead] at hFirst
    refine ⟨_, hFirst, rfl, rfl, ?_, fun q hq => Function.update_of_ne hq _ _⟩
    simp [Pool.finish, Stage.result?]
  | ok code =>
    simp only [hRead] at hFirst ⊢
    generalize b.engine.run code (some (p.relativeTo base).text) = r at hFirst ⊢
    cases hStatus : r.status == .failed with
    | true =>
      rw [if_pos hStatus] at hFirst
      refine ⟨_, hFirst, rfl, rfl, ?_, fun q hq => Function.update_of_ne hq _ _⟩
      simp [Pool.finish, Stage.result?]
    | false =>
      rw [if_neg (by simp [hStatus])] at hFirst
      simp only [Bool.false_eq_true, if_false]
      have hSecond := hFirst.step hp
      rw [Pool.advanceTo_of_migrated hText (Function.update_self _ _ _)] at hSecond
      simp only at hSecond
      cases hMake : pool.tree.makeDirectories (p.mirroredIn out base).parent with
      | error why =>
        simp only [hMake, Except.bind] at hSecond ⊢
        refine ⟨_, hSecond, rfl, rfl, ?_, fun q hq => ?_⟩
        · simp [Pool.finish, Stage.result?]
        · simp [Pool.finish, Function.update_of_ne hq]
      | ok above =>
        simp only [hMake, Except.bind] at hSecond ⊢
        cases hOpen : above.write (p.mirroredIn out base) [] with
        | error why =>
          simp only [hOpen] at hSecond
          rw [FileTree.write_eq_error hOpen]
          refine ⟨_, hSecond, rfl, rfl, ?_, fun q hq => ?_⟩
          · simp [Pool.finish, Stage.result?]
          · simp [Pool.finish, Function.update_of_ne hq]
        | ok opened =>
          simp only [hOpen] at hSecond
          have hThird := hSecond.step hp
          rw [Pool.advanceTo_of_opened hText (Function.update_self _ _ _)] at hThird
          simp only [writeText_eq hUtf8, FileTree.write_of_write hOnward hOpen] at hThird
          cases hWrite : above.write (p.mirroredIn out base) (Encoding.utf8.encode r.code) with
          | error why =>
            rw [FileTree.write_eq_error hWrite] at hOpen
            cases hOpen
          | ok written =>
            simp only [hWrite] at hThird ⊢
            refine ⟨_, hThird, rfl, rfl, ?_, fun q hq => ?_⟩
            · simp [Pool.finish, Stage.result?]
            · simp [Pool.finish, Function.update_of_ne hq]

/-- One task after the other is one of the orders. -/
theorem exists_mirrored (hTexts : ∀ p ∈ found, FilePath.ofText (p.relativeTo base).text = p.relativeTo base)
    (hOnward : ∀ p ∈ found, (p.mirroredIn out base).names.getLast? ≠ some "..") {ps : List FilePath}
    (hps : ps ⊆ found) (hNodup : ps.Nodup) (h : Pool.Mirrors b t out base found pool)
    (hWaiting : ∀ p ∈ ps, pool.stage p = .waiting) :
    ∃ pool', Pool.Mirrors b t out base found pool' ∧
      pool'.tree = (b.migrateFiles base ps pool.tree).2 ∧
      pool'.results = pool.results ++ (b.migrateFiles base ps pool.tree).1 ∧
      (∀ p ∈ ps, (pool'.stage p).result?.isSome = true) ∧ ∀ q, q ∉ ps → pool'.stage q = pool.stage q := by
  induction ps generalizing pool with
  | nil => exact ⟨pool, h, rfl, (List.append_nil _).symm, by simp, fun _ _ => rfl⟩
  | cons p ps ih =>
    obtain ⟨hp, hMore⟩ := List.cons_subset.mp hps
    obtain ⟨hNew, hRest⟩ := List.nodup_cons.mp hNodup
    obtain ⟨pool₁, h₁, hTree₁, hResults₁, hDone₁, hElse₁⟩ := exists_migrated hUtf8 hMirror hDry
      (hTexts p hp) (hOnward p hp) h hp (hWaiting p List.mem_cons_self)
    obtain ⟨pool₂, h₂, hTree₂, hResults₂, hDone₂, hElse₂⟩ := ih hMore hRest h₁ fun q hq => by
      rw [hElse₁ q fun hSame => hNew (hSame ▸ hq)]
      exact hWaiting q (List.mem_cons_of_mem _ hq)
    refine ⟨pool₂, h₂, ?_, ?_, fun q hq => ?_, fun q hq => ?_⟩
    · rw [hTree₂, hTree₁]
      rfl
    · rw [hResults₂, hResults₁, hTree₁, List.append_assoc]
      rfl
    · rcases List.mem_cons.mp hq with rfl | hq
      · rwa [hElse₂ q hNew]
      · exact hDone₂ q hq
    · simp only [List.mem_cons, not_or] at hq
      rw [hElse₂ q hq.2, hElse₁ q hq.1]

end Task

end Steps

-- ---------------------------------------------------------------------------
-- The whole batch
-- ---------------------------------------------------------------------------

/-- What a batch has made of its files and of their destinations. -/
structure Mirrored (b : Batch) (t : FileTree) (out base : FilePath) (found : List FilePath)
    (results : List MigrationResult) (tree : FileTree) : Prop where
  /-- There is one result for each file. -/
  names : (results.map (·.name)).Perm (found.map fun p => (p.relativeTo base).text)
  /-- A file that is no destination keeps its contents, which its result is the outcome of. -/
  spared : ∀ p ∈ found, Spared out base found p → tree.content? p = t.content? p ∧
    ∃ r ∈ results, r.name = (p.relativeTo base).text ∧ b.EndsWith t base p r
  /-- What did not fail is written to its destination, which holds it unless another file has that. -/
  written : ∀ p ∈ found, ∃ r ∈ results, r.name = (p.relativeTo base).text ∧ (r.status ≠ .failed →
    ∃ content, tree.content? (p.mirroredIn out base) = some content ∧
      (Unshared out base found p → content = Encoding.utf8.encode r.code))
  /-- Nothing else is written, and nothing for a file that failed. -/
  places : ∀ place, tree.standing place = t.standing place ∨
    t.standing place = .nothing ∧ tree.standing place = .directory ∨
    t.standing place ≠ .directory ∧ ∃ p ∈ found, (p.mirroredIn out base).settled? = some place ∧
      ∃ r ∈ results, r.name = (p.relativeTo base).text ∧ r.status ≠ .failed

section Complete

variable {b : Batch} {t tree : FileTree} {out base : FilePath} {found : List FilePath} {pool : Pool}
  {results results' : List MigrationResult}

/-- The order of results is no matter. -/
theorem Mirrored.perm (h : b.Mirrored t out base found results tree) (hPerm : results'.Perm results) :
    b.Mirrored t out base found results' tree := by
  obtain ⟨hNames, hSpared, hWritten, hPlaces⟩ := h
  refine ⟨(hPerm.map _).trans hNames, ?_, ?_, ?_⟩
  · simpa only [hPerm.mem_iff] using hSpared
  · simpa only [hPerm.mem_iff] using hWritten
  · simpa only [hPerm.mem_iff] using hPlaces

/-- Once all tasks are done, the stages tell the results. -/
theorem mirrored_of_complete (hFiles : ∀ p ∈ found, t.isFile p = true)
    (h : b.Mirroring t out base found pool) (hComplete : pool.IsComplete found) :
    b.Mirrored t out base found pool.results pool.tree := by
  have hDone (p : FilePath) (hp : p ∈ found) : ∃ r ∈ pool.results, pool.stage p = .done r ∧
      r.name = (p.relativeTo base).text ∧ (Spared out base found p → b.EndsWith t base p r) := by
    have hEnd := hComplete p hp
    have hExpects := h.expects p hp
    cases hStage : pool.stage p with
    | done r =>
      rw [hStage] at hExpects
      refine ⟨r, h.results.mem_iff.mpr (List.mem_filterMap.mpr ⟨p, hp, ?_⟩), rfl, hExpects⟩
      rw [hStage]
      rfl
    | _ => simp [hStage, Stage.result?] at hEnd
  refine ⟨?_, fun p hp hSpared => ?_, fun p hp => ?_, fun place => ?_⟩
  · refine (h.results.map _).trans ?_
    rw [List.map_filterMap, ← List.filterMap_eq_map]
    refine List.Perm.of_eq (List.filterMap_congr fun p hp => ?_)
    obtain ⟨r, -, hStage, hName, -⟩ := hDone p hp
    simp [hStage, Stage.result?, hName]
  · obtain ⟨place, content, hAt⟩ := FileTree.exists_fileAt (hFiles p hp)
    obtain ⟨r, hr, -, hName, hEnds⟩ := hDone p hp
    rw [(h.fileAt hSpared hAt).contents, hAt.contents]
    exact ⟨rfl, r, hr, hName, hEnds hSpared⟩
  · obtain ⟨r, hr, hStage, hName, -⟩ := hDone p hp
    refine ⟨r, hr, hName, fun hStatus => ?_⟩
    obtain ⟨place, now, hAt, hNow⟩ := h.written p hp (Encoding.utf8.encode r.code)
      (by rw [hStage, Stage.written?, if_neg hStatus])
    exact ⟨now, hAt.contents, hNow⟩
  · refine (h.standing place).imp_right (Or.imp_right fun hWrote => ?_)
    obtain ⟨hFree, -, p, hp, hWritten, hPlace⟩ := hWrote
    obtain ⟨r, hr, hStage, hName, -⟩ := hDone p hp
    refine ⟨hFree, p, hp, hPlace, r, hr, hName, fun hFailed => ?_⟩
    simp [hStage, Stage.written?, hFailed] at hWritten

end Complete

/-- However its tasks are run, one after the other or in any order of their steps, a batch that writes to
another directory writes to nothing but the destinations of files that did not fail. A file that is none
of these destinations keeps its contents, and its result is the outcome of these, or tells why that
could not be written. A destination that no two files share holds the text of the result of its file.

All of the files are such, and all of the destinations, if neither directory is in the other and no
pattern leads back. A pattern that is none stops the run before the first file. -/
theorem mirror_settles {b : Batch} {t : FileTree} {root out : FilePath}
    (hUtf8 : Encoding.ofName? b.settings.encoding = some .utf8) (hMirror : b.destination = some out)
    (hDry : b.isDry = false) (hProper : t.isProper = true) :
    match Discovery.files t root b.settings.included b.settings.excluded with
    | .error why => b.perform t root = .error why
    | .ok found =>
      let base := baseOf t root
      (∃ report, b.perform t root = .ok report ∧
        b.Mirrored t out base found report.results report.tree) ∧
      (∃ pool, Pool.Mirrors b t out base found pool ∧ pool.IsComplete found) ∧
      (∀ pool, Pool.Mirrors b t out base found pool → pool.IsComplete found →
        b.Mirrored t out base found pool.results pool.tree) ∧
      (Apart out base → (∀ s ∈ b.settings.included, ".." ∉ (FilePath.ofText s).names) →
        ∀ p ∈ found, Spared out base found p ∧ Unshared out base found p) := by
  cases hFound : Discovery.files t root b.settings.included b.settings.excluded with
  | error why =>
    simp only [perform, hFound]
    rfl
  | ok found =>
    obtain ⟨hFiles, hNodup, -⟩ := files_found hProper hFound
    have hLeads (p : FilePath) (hp : p ∈ found) := leads_files (P := (FilePath.isStep · = true)) hProper
      (fun name hName => (Bool.and_eq_true_iff.mp hName).1)
      (fun s _ name hName => FilePath.isStep_of_ofText hName) hFound hp
    have hTexts (p : FilePath) (hp : p ∈ found) := FilePath.ofText_of_leads (hLeads p hp).1
    have hOnward (p : FilePath) (hp : p ∈ found) :=
      onward_of_leads out hProper (hFiles p hp) (hLeads p hp).1 (hLeads p hp).2
    have hTop : t.standing [] = .directory := by
      obtain ⟨hTop, -⟩ := Bool.and_eq_true_iff.mp hProper
      unfold FileTree.standing
      cases hNode : t.top with
      | file content => simp [hNode, FileNode.isDirectory] at hTop
      | directory es => rfl
    have hAll (pool : Pool) (h : Pool.Mirrors b t out (baseOf t root) found pool)
        (hComplete : pool.IsComplete found) :=
      mirrored_of_complete hFiles (mirroring_reaches hUtf8 hFiles hTexts hOnward hTop hNodup h) hComplete
    obtain ⟨pool, hPool, hTree, hResults, hDone, -⟩ := exists_mirrored hUtf8 hMirror hDry hTexts hOnward
      (List.Subset.refl found) hNodup (.start (t := t)) fun _ _ => rfl
    refine ⟨⟨b.migrateFound t root found, perform_of_found hFound, ?_⟩, ⟨pool, hPool, hDone⟩, hAll,
      fun hApart hPatterns p hp => aside_of_apart hApart (fun q hq => ?_) hp⟩
    · have hSequential := hAll pool hPool hDone
      rw [hTree, hResults, List.nil_append] at hSequential
      exact hSequential.perm (perm_inOrder _)
    · refine (leads_files hProper (fun name hName => ?_) (fun s hs name hName hDots => ?_) hFound hq).1
      · simpa using (Bool.and_eq_true_iff.mp hName).2
      · exact hPatterns s hs (hDots ▸ hName)

end Batch

end Tasks

namespace Batch

/-- A batch with the appender recipe that writes to another directory. -/
def mirroringAppenders : Batch :=
  { appenders ["**/*.java"] with destination := some ⟨"", ["out"]⟩ }

/-- A class to be moved, and a file that is no text, in a directory of their own. -/
def sourceTree : FileTree := ⟨.directory [("src", mixedTree.top)]⟩

theorem files_sourceTree : Discovery.files sourceTree ⟨"", ["src"]⟩ ["**/*.java"] [] =
    .ok [⟨"", ["src", "A.java"]⟩, ⟨"", ["src", "B.java"]⟩] := by
  unfold Discovery.files
  rw [if_neg (by decide +kernel)]
  exact Discovery.found_of_sorted [⟨[.anyDirectories, .wildcard (.ofText "*.java")], false⟩]
    (by decide +kernel) (by decide +kernel) (by decide +kernel)

open Sample in
theorem mirror_settles_sourceTree : letI := library [remarked, holder]
    ∃ found report, Discovery.files sourceTree ⟨"", ["src"]⟩ ["**/*.java"] [] = .ok found ∧
      mirroringAppenders.perform sourceTree ⟨"", ["src"]⟩ = .ok report ∧
      (∀ p ∈ found, report.tree.content? p = sourceTree.content? p) ∧
      ∃ r ∈ report.results, r.name = "A.java" ∧ (r.status ≠ .failed →
        report.tree.content? ⟨"", ["out", "A.java"]⟩ = some (Encoding.utf8.encode r.code)) := by
  let _ := library [remarked, holder]
  have hAll := @mirror_settles _ mirroringAppenders sourceTree ⟨"", ["src"]⟩ ⟨"", ["out"]⟩
    (by decide +kernel) rfl rfl (by decide +kernel)
  rw [show Discovery.files sourceTree ⟨"", ["src"]⟩ mirroringAppenders.settings.included
      mirroringAppenders.settings.excluded = _ from files_sourceTree] at hAll
  have hBase : baseOf sourceTree ⟨"", ["src"]⟩ = ⟨"", ["src"]⟩ := by decide +kernel
  simp only [hBase] at hAll
  obtain ⟨⟨report, hReport, hMirrored⟩, -, -, hAside⟩ := hAll
  replace hAside := hAside ⟨["out"], ["src"], by decide⟩ (by decide +kernel)
  obtain ⟨r, hr, hName, hWritten⟩ := hMirrored.written ⟨"", ["src", "A.java"]⟩ (by simp)
  refine ⟨_, report, files_sourceTree, hReport, fun p hp => (hMirrored.spared p hp (hAside p hp).1).1,
    r, hr, hName.trans (by decide +kernel), fun hStatus => ?_⟩
  obtain ⟨content, hContent, hText⟩ := hWritten hStatus
  rw [← hText (hAside _ (by simp)).2, ← hContent]
  exact congrArg _ (by decide +kernel)

end Batch

end SourceMigration
