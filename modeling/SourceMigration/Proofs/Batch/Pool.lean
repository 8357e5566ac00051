import SourceMigration.Proofs.Batch.Pointwise
import SourceMigration.Proofs.Recipe.Migrated

/-!
# SourceMigration — batches on a pool of workers

Workers take the files of a batch as tasks, and their steps come in any order: a task reads and
migrates its file, opens it, which empties it, and writes it. What the tasks that are done and those
that are under way have made of the tree is known at every moment, so a task finds its own file as it
was. Once all tasks are done, results and tree are those of one task after the other.

## Results

* `advance_cases`   — what one step of a task does.
* `Sound.advance`   — what is known of a moment is known after one step of any task.
* `sound_reaches`   — any steps of any tasks.
* `exists_complete` — all tasks can be brought to their ends.
* `batch_pointwise` — however the tasks are run, a batch is what it does to each file by itself.
-/

namespace SourceMigration

/-- How far the task of a file has come. -/
inductive Stage where
  | waiting
  /-- The file was read and migrated, and is to be written. -/
  | migrated (r : MigrationResult)
  /-- The file was opened for writing, which empties it. -/
  | opened (r : MigrationResult)
  | done (r : MigrationResult)

/-- The result of a task that is done. -/
def Stage.result? : Stage → Option MigrationResult
  | .done r => some r
  | _ => none

/-- The number of steps from a stage to the end of the task, at most. -/
def Stage.remaining : Stage → Nat
  | .waiting => 3
  | .migrated _ => 2
  | .opened _ => 1
  | .done _ => 0

theorem Stage.isSome_result_iff {s : Stage} : s.result?.isSome = true ↔ s.remaining = 0 := by
  cases s <;> simp [result?, remaining]

/-- A batch under way. -/
structure Pool where
  tree : FileTree
  stage : FilePath → Stage := fun _ => .waiting
  /-- The results so far, in the order in which tasks were done. -/
  results : List MigrationResult := []

section Tasks

variable [TreeSitter]

namespace Pool

/-- A task is done. -/
def finish (pool : Pool) (p : FilePath) (r : MigrationResult) : Pool :=
  { pool with stage := Function.update pool.stage p (.done r), results := pool.results ++ [r] }

/-- The next step of a task. -/
def advance (b : Batch) (base : FilePath) (pool : Pool) (p : FilePath) : Pool :=
  let name := (p.relativeTo base).text
  match pool.stage p with
  | .waiting =>
    match Batch.readText b.settings pool.tree p with
    | .error why => pool.finish p (.ofFileFault name why [])
    | .ok code =>
      let r := b.engine.run code (some name)
      if b.isDry || r.status != .edited then pool.finish p r
      else { pool with stage := Function.update pool.stage p (.migrated r) }
  | .migrated r =>
    match pool.tree.write p [] with
    | .error why => pool.finish p (.ofFileFault name why r.remarks)
    | .ok tree => { pool with tree, stage := Function.update pool.stage p (.opened r) }
  | .opened r =>
    match Batch.writeText b.settings pool.tree p r.code with
    | .error why => pool.finish p (.ofFileFault name why r.remarks)
    | .ok tree => { pool with tree }.finish p r
  | .done _ => pool

/-- The pools that steps of tasks lead to, in any order. -/
inductive Reaches (b : Batch) (t : FileTree) (base : FilePath) (found : List FilePath) : Pool → Prop
  | start : Reaches b t base found { tree := t }
  | step {pool : Pool} {p : FilePath} (h : Reaches b t base found pool) (hp : p ∈ found) :
    Reaches b t base found (pool.advance b base p)

/-- All tasks are done. -/
def IsComplete (found : List FilePath) (pool : Pool) : Prop :=
  ∀ p ∈ found, (pool.stage p).result?.isSome = true

end Pool

namespace Batch

/-- The contents of a file while its task is under way. -/
def shown (b : Batch) (content : Bytes) : Stage → Bytes
  | .waiting | .migrated _ => content
  | .opened _ => []
  | .done _ => b.settled content

/-- The stages that lead to an outcome: only what is edited is written, and not in a dry run. -/
def Leads (b : Batch) (r : MigrationResult) : Stage → Prop
  | .waiting => True
  | .migrated s | .opened s => s = r ∧ r.status = .edited ∧ b.isDry = false
  | .done s => s = r

/-- A moment in the run of a pool: `f` tells what was made of the contents so far, and every task has
come to a stage on the way to its outcome. -/
structure Sound (b : Batch) (t : FileTree) (base : FilePath) (found : List FilePath) (pool : Pool)
    (f : List String → Bytes → Bytes) : Prop where
  tree : pool.tree = t.rewritten f
  shown : ∀ p ∈ found, ∀ place content, t.FileAt p place content →
    f place content = b.shown content (pool.stage p)
  others : ∀ place content, .ok place ∉ found.map t.locate → f place content = content
  leads : ∀ p ∈ found, b.Leads (b.outcomeAt t base p) (pool.stage p)

/-- The results of a pool are the outcomes of the tasks that are done, in some order. -/
structure Counted (b : Batch) (t : FileTree) (base : FilePath) (found : List FilePath) (pool : Pool)
    (order : List FilePath) : Prop where
  results : pool.results = order.map (b.outcomeAt t base)
  nodup : order.Nodup
  mem_order : ∀ p, p ∈ order ↔ p ∈ found ∧ (pool.stage p).result?.isSome = true

section Steps

variable {b : Batch} {t : FileTree} {base : FilePath} {found : List FilePath} {pool : Pool}
  {f : List String → Bytes → Bytes} {order : List FilePath} {p : FilePath} {place : List String}
  {content : Bytes}

/-- In a dry run, contents stay as they are. -/
theorem shown_of_dry (hDry : b.isDry = true) {r : MigrationResult} {s : Stage} (h : b.Leads r s) :
    b.shown content s = content := by
  cases s with
  | waiting => rfl
  | migrated s => rfl
  | opened s => simp [Leads, hDry] at h
  | done s => exact settled_of_dry hDry

section Task

variable (h : b.Sound t base found pool f) (hp : p ∈ found) (hAt : t.FileAt p place content)

include h hp hAt

/-- What a task finds in its file. -/
theorem Sound.fileAt : pool.tree.FileAt p place (b.shown content (pool.stage p)) := by
  rw [h.tree, ← h.shown p hp place content hAt]
  exact hAt.rewritten

variable (hProper : t.isProper = true) {s : Stage}

include hProper

/-- The tree after a task has written to its file. -/
theorem Sound.write {new : Bytes} (hNew : b.shown content s = new) :
    pool.tree.write p new =
      .ok (t.rewritten (Function.update f place fun _ => b.shown content s)) := by
  rw [(h.fileAt hp hAt).write (by rw [h.tree, FileTree.isProper_rewritten, hProper]), h.tree,
    FileTree.rewritten_rewritten, hNew]
  congr 1
  refine FileTree.rewritten_congr hProper fun place' content' _ => ?_
  by_cases hPlace : place' = place
  · subst hPlace
    rw [Function.update_self, Function.update_self]
  · rw [Function.update_of_ne hPlace, Function.update_of_ne hPlace]
    rfl

/-- The tree after a step that shows the file as it was shown before. -/
theorem Sound.keep (hSame : b.shown content s = b.shown content (pool.stage p)) :
    pool.tree = t.rewritten (Function.update f place fun _ => b.shown content s) := by
  rw [h.tree]
  refine FileTree.rewritten_congr hProper fun place' content' hFound => ?_
  by_cases hPlace : place' = place
  · subst hPlace
    obtain rfl : content = content' := by simpa using hAt.found.symm.trans hFound
    rw [Function.update_self, hSame, h.shown p hp _ _ hAt]
  · rw [Function.update_of_ne hPlace]

/-- What the next step of a task does: nothing if it is done, and otherwise it brings the task to
another stage on its way. -/
theorem advance_cases (hUtf8 : Encoding.ofName? b.settings.encoding = some .utf8) :
    ((pool.stage p).result?.isSome = true ∧ pool.advance b base p = pool) ∨
      ((pool.stage p).result?.isSome = false ∧ ∃ s : Stage, b.Leads (b.outcomeAt t base p) s ∧
        (pool.advance b base p).tree =
          t.rewritten (Function.update f place fun _ => b.shown content s) ∧
        (pool.advance b base p).stage = Function.update pool.stage p s ∧
        (pool.advance b base p).results = pool.results ++ s.result?.toList) := by
  have hLeads := h.leads p hp
  have hNow := h.fileAt hp hAt
  have hKeep (s : Stage) := h.keep hp hAt hProper (s := s)
  rw [outcomeAt_of_fileAt hAt] at hLeads ⊢
  unfold Pool.advance
  generalize (p.relativeTo base).text = name at hLeads ⊢
  cases hStage : pool.stage p with
  | waiting =>
    rw [hStage] at hNow hKeep
    refine Or.inr ⟨rfl, ?_⟩
    have hRead := readText_eq hUtf8 (show pool.tree.FileAt p place content from hNow)
    simp only [hRead]
    cases hText : Encoding.utf8.decode content with
    | error why =>
      have hOutcome : b.outcome name content = .ofFileFault name (.undecodable why) [] := by
        rw [outcome, hText]
      have hSettled : b.settled content = content :=
        settled_of_not_edited (show (b.outcome name content).status ≠ .edited by
          simp [hOutcome, MigrationResult.ofFileFault])
      exact ⟨.done _, hOutcome.symm, hKeep (.done _) hSettled, rfl, rfl⟩
    | ok code =>
      have hOutcome : b.outcome name content = b.engine.run code (some name) := by
        rw [outcome, hText]
      simp only [← hOutcome]
      split
      · rename_i hStays
        have hSettled : b.settled content = content := by
          rcases Bool.or_eq_true_iff.mp hStays with hDry | hUnedited
          · exact settled_of_dry hDry
          · exact settled_of_not_edited (by simpa using hUnedited)
        exact ⟨.done _, rfl, hKeep (.done _) hSettled, rfl, rfl⟩
      · rename_i hMoves
        simp only [Bool.or_eq_true, not_or, Bool.not_eq_true, bne_eq_false_iff_eq] at hMoves
        exact ⟨.migrated _, ⟨rfl, hMoves.2, hMoves.1⟩, hKeep (.migrated _) rfl, rfl,
          (List.append_nil _).symm⟩
  | migrated r =>
    rw [hStage] at hLeads
    obtain ⟨rfl, hEdited, hDry⟩ := hLeads
    refine Or.inr ⟨rfl, .opened (b.outcome name content), ⟨rfl, hEdited, hDry⟩, ?_⟩
    have hEmptied : pool.tree.write p [] = _ :=
      h.write hp hAt hProper (s := .opened (b.outcome name content)) rfl
    simp only [hEmptied]
    exact ⟨trivial, trivial, (List.append_nil _).symm⟩
  | opened r =>
    rw [hStage] at hLeads
    obtain ⟨rfl, hEdited, hDry⟩ := hLeads
    refine Or.inr ⟨rfl, .done (b.outcome name content), rfl, ?_⟩
    have hWritten := h.write hp hAt hProper (s := .done (b.outcome name content))
      (settled_of_edited hDry hEdited)
    simp only [writeText_eq hUtf8, hWritten]
    exact ⟨rfl, rfl, rfl⟩
  | done r => exact Or.inl ⟨rfl, rfl⟩

end Task

section Moved

variable {pool' : Pool} {s : Stage} (hp : p ∈ found)
  (hStage : pool'.stage = Function.update pool.stage p s)

include hp hStage

/-- The moment after a task has come to another stage. -/
theorem Sound.moved (hApart : b.isDry = true ∨ (found.map t.locate).Nodup)
    (h : b.Sound t base found pool f) (hAt : t.FileAt p place content)
    (hLeads : b.Leads (b.outcomeAt t base p) s)
    (hTree : pool'.tree = t.rewritten (Function.update f place fun _ => b.shown content s)) :
    b.Sound t base found pool' (Function.update f place fun _ => b.shown content s) := by
  have hStages : ∀ q ∈ found, b.Leads (b.outcomeAt t base q) (pool'.stage q) := by
    intro q hq
    rw [hStage]
    by_cases hTask : q = p
    · subst hTask
      rwa [Function.update_self]
    · rw [Function.update_of_ne hTask]
      exact h.leads q hq
  refine ⟨hTree, ?_, ?_, hStages⟩
  · intro q hq place' content' hAt'
    by_cases hPlace : place' = place
    · subst hPlace
      obtain rfl : content = content' := by simpa using hAt.found.symm.trans hAt'.found
      rw [Function.update_self]
      -- another task of the same file is no matter in a dry run
      rcases hApart with hDry | hNodup
      · rw [shown_of_dry hDry hLeads, shown_of_dry hDry (hStages q hq)]
      · obtain rfl := List.inj_on_of_nodup_map hNodup hp hq (hAt.located.trans hAt'.located.symm)
        rw [hStage, Function.update_self]
    · have hTask : q ≠ p := by
        rintro rfl
        exact hPlace (hAt.unique hAt').1
      rw [hStage, Function.update_of_ne hPlace, Function.update_of_ne hTask]
      exact h.shown q hq place' content' hAt'
  · intro place' content' hElse
    have hPlace : place' ≠ place := by
      rintro rfl
      exact hElse (hAt.located ▸ List.mem_map_of_mem hp)
    rw [Function.update_of_ne hPlace]
    exact h.others place' content' hElse

/-- A task that has come to its end is the last one in the order of results. -/
theorem Counted.moved (h : b.Counted t base found pool order)
    (hOpen : (pool.stage p).result?.isSome = false) (hLeads : b.Leads (b.outcomeAt t base p) s)
    (hMore : pool'.results = pool.results ++ s.result?.toList) :
    b.Counted t base found pool' (if s.result?.isSome then order ++ [p] else order) := by
  have hNew : p ∉ order := fun hDone => by
    simpa [hOpen] using ((h.mem_order p).mp hDone).2
  refine ⟨?_, ?_, fun q => ?_⟩
  · rw [hMore, h.results]
    cases s <;> simp_all [Stage.result?, Leads]
  · split
    · refine List.nodup_append.mpr ⟨h.nodup, by simp, ?_⟩
      rintro q hq _ hTask rfl
      exact hNew (List.mem_singleton.mp hTask ▸ hq)
    · exact h.nodup
  · rw [hStage]
    by_cases hTask : q = p
    · subst hTask
      rw [Function.update_self]
      split <;> simp_all
    · rw [Function.update_of_ne hTask, ← h.mem_order]
      split <;> simp [hTask]

end Moved

/-- One step of any task. -/
theorem Sound.advance (hUtf8 : Encoding.ofName? b.settings.encoding = some .utf8)
    (hProper : t.isProper = true) (hFiles : ∀ p ∈ found, t.isFile p = true)
    (hApart : b.isDry = true ∨ (found.map t.locate).Nodup) (h : b.Sound t base found pool f)
    (hCounted : b.Counted t base found pool order) (hp : p ∈ found) :
    ∃ f' order', b.Sound t base found (pool.advance b base p) f' ∧
      b.Counted t base found (pool.advance b base p) order' := by
  obtain ⟨place, content, hAt⟩ := FileTree.exists_fileAt (hFiles p hp)
  rcases advance_cases h hp hAt hProper hUtf8 with ⟨-, hSame⟩ | ⟨hOpen, s, hLeads, hTree, hStage, hMore⟩
  · rw [hSame]
    exact ⟨f, order, h, hCounted⟩
  · exact ⟨_, _, h.moved hp hStage hApart hAt hLeads hTree,
      hCounted.moved hp hStage hOpen hLeads hMore⟩

/-- Any steps of any tasks. -/
theorem sound_reaches (hUtf8 : Encoding.ofName? b.settings.encoding = some .utf8)
    (hProper : t.isProper = true) (hFiles : ∀ p ∈ found, t.isFile p = true)
    (hApart : b.isDry = true ∨ (found.map t.locate).Nodup)
    (h : Pool.Reaches b t base found pool) :
    ∃ f order, b.Sound t base found pool f ∧ b.Counted t base found pool order := by
  induction h with
  | start =>
    refine ⟨fun _ => id, [], ⟨FileTree.rewritten_id.symm, fun _ _ _ _ _ => rfl, fun _ _ _ => rfl,
      fun _ _ => trivial⟩, ⟨rfl, .nil, fun p => ?_⟩⟩
    simp [Stage.result?]
  | step h hp ih =>
    obtain ⟨f, order, hSound, hCounted⟩ := ih
    exact hSound.advance hUtf8 hProper hFiles hApart hCounted hp

end Steps

-- ---------------------------------------------------------------------------
-- Pools that are done
-- ---------------------------------------------------------------------------

section Complete

variable {b : Batch} {t : FileTree} {base : FilePath} {found : List FilePath} {pool : Pool}

/-- Once all tasks are done, the results are the outcomes and the contents are settled. -/
theorem eq_of_complete (hUtf8 : Encoding.ofName? b.settings.encoding = some .utf8)
    (hProper : t.isProper = true) (hFiles : ∀ p ∈ found, t.isFile p = true) (hNodup : found.Nodup)
    (hApart : b.isDry = true ∨ (found.map t.locate).Nodup)
    (h : Pool.Reaches b t base found pool) (hComplete : pool.IsComplete found) :
    pool.results.Perm (found.map (b.outcomeAt t base)) ∧ pool.tree = b.settledTree t found := by
  obtain ⟨f, order, hSound, hCounted⟩ := sound_reaches hUtf8 hProper hFiles hApart h
  constructor
  · rw [hCounted.results]
    refine List.Perm.map _ ((List.perm_ext_iff_of_nodup hCounted.nodup hNodup).mpr fun p => ?_)
    rw [hCounted.mem_order]
    exact ⟨fun hBoth => hBoth.1, fun hp => ⟨hp, hComplete p hp⟩⟩
  · rw [hSound.tree, settledTree]
    refine FileTree.rewritten_congr hProper fun place content hFile => ?_
    split
    · rename_i hPlace
      obtain ⟨p, hp, hLocated⟩ := List.mem_map.mp hPlace
      rw [hSound.shown p hp place content ⟨hLocated, hFile⟩]
      have hDone := hComplete p hp
      cases hStage : pool.stage p with
      | done r => rfl
      | _ => simp [hStage, Stage.result?] at hDone
    · exact hSound.others place content ‹_›

end Complete

end Batch

namespace Pool

-- ---------------------------------------------------------------------------
-- Pools come to an end
-- ---------------------------------------------------------------------------

section Progress

variable {b : Batch} {t : FileTree} {base : FilePath} {found : List FilePath} {pool : Pool}

/-- A step of a task leaves the other tasks where they are. -/
theorem stage_advance_of_ne {p q : FilePath} (h : q ≠ p) :
    (pool.advance b base p).stage q = pool.stage q := by
  unfold advance finish
  simp only
  split
  · split
    · exact Function.update_of_ne h _ _
    · split <;> exact Function.update_of_ne h _ _
  · split <;> exact Function.update_of_ne h _ _
  · split <;> exact Function.update_of_ne h _ _
  · rfl

/-- A task that is not done comes closer to its end with each step. -/
theorem remaining_advance (p : FilePath) :
    ((pool.advance b base p).stage p).remaining ≤ (pool.stage p).remaining - 1 := by
  unfold advance finish
  cases hStage : pool.stage p with
  | waiting =>
    simp only
    split
    · simp [Stage.remaining]
    · split <;> simp [Stage.remaining]
  | migrated r => simp only; split <;> simp [Stage.remaining]
  | opened r => simp only; split <;> simp [Stage.remaining]
  | done r => simp [hStage, Stage.remaining]

/-- One task can be brought to its end. -/
theorem exists_done (h : Reaches b t base found pool) {p : FilePath} (hp : p ∈ found) :
    ∃ pool', Reaches b t base found pool' ∧ (pool'.stage p).remaining = 0 ∧
      ∀ q, q ≠ p → pool'.stage q = pool.stage q := by
  obtain ⟨n, hSteps⟩ : ∃ n, (pool.stage p).remaining ≤ n := ⟨_, Nat.le_refl _⟩
  induction n generalizing pool with
  | zero => exact ⟨pool, h, Nat.le_zero.mp hSteps, fun _ _ => rfl⟩
  | succ n ih =>
    have hCloser : ((pool.advance b base p).stage p).remaining ≤ (pool.stage p).remaining - 1 :=
      remaining_advance p
    obtain ⟨pool', hReaches, hDone, hOthers⟩ := ih (h.step hp) (by omega)
    exact ⟨pool', hReaches, hDone, fun q hq => (hOthers q hq).trans (stage_advance_of_ne hq)⟩

/-- Whatever was done so far, all tasks can be brought to their ends. -/
theorem exists_complete (h : Reaches b t base found pool) :
    ∃ pool', Reaches b t base found pool' ∧ pool'.IsComplete found := by
  have hAll (ps : List FilePath) (hps : ps ⊆ found) :
      ∃ pool', Reaches b t base found pool' ∧ ∀ p ∈ ps, (pool'.stage p).remaining = 0 := by
    induction ps with
    | nil => exact ⟨pool, h, by simp⟩
    | cons p ps ih =>
      obtain ⟨pool₁, hReaches₁, hDone₁⟩ := ih fun q hq => hps (List.mem_cons_of_mem _ hq)
      obtain ⟨pool₂, hReaches₂, hDone₂, hOthers⟩ := exists_done hReaches₁ (hps List.mem_cons_self)
      refine ⟨pool₂, hReaches₂, fun q hq => ?_⟩
      by_cases hTask : q = p
      · rw [hTask, hDone₂]
      · rw [hOthers q hTask]
        exact hDone₁ q ((List.mem_cons.mp hq).resolve_left hTask)
  obtain ⟨pool', hReaches, hDone⟩ := hAll found fun _ hp => hp
  exact ⟨pool', hReaches, fun p hp => Stage.isSome_result_iff.mpr (hDone p hp)⟩

end Progress

end Pool

namespace Batch

/-- However its tasks are run, one after the other or on a pool in any order, a batch that writes
files back, or nothing at all, is what it does to each file by itself. There is one result for each
file that was found, under names that are all different and in ascending order. The result of a file,
and its contents afterwards, are functions of its own contents; a file that is no text, that cannot be
parsed or whose migration fails has a failed result and keeps its contents.

This holds as long as no two of the paths lead to one file. A pattern that is none stops the run before
the first file. -/
theorem batch_pointwise {b : Batch} {t : FileTree} {root : FilePath}
    (hUtf8 : Encoding.ofName? b.settings.encoding = some .utf8)
    (hInPlace : b.isDry = true ∨ b.destination = none) (hProper : t.isProper = true)
    (hApart : b.isDry = true ∨ ∀ found,
      Discovery.files t root b.settings.included b.settings.excluded = .ok found →
        (found.map t.locate).Nodup) :
    match Discovery.files t root b.settings.included b.settings.excluded with
    | .error why => b.perform t root = .error why
    | .ok found =>
      let base := baseOf t root
      let results := inOrder (found.map (b.outcomeAt t base))
      (∃ report, b.perform t root = .ok report ∧ report.results = results ∧
        report.tree = b.settledTree t found) ∧
      (∃ pool, Pool.Reaches b t base found pool ∧ pool.IsComplete found) ∧
      (∀ pool, Pool.Reaches b t base found pool → pool.IsComplete found →
        inOrder pool.results = results ∧ pool.tree = b.settledTree t found) ∧
      results.length = found.length ∧ (results.map (·.name)).Pairwise (· < ·) ∧
      ∀ p ∈ found, ∃ content, t.content? p = some content ∧
        (b.settledTree t found).content? p = some (b.settled content) ∧
        ∃ r ∈ results, r.name = (p.relativeTo base).text ∧ r = b.outcome r.name content ∧
          ((¬ ∃ code unit, Encoding.utf8.decode content = .ok code ∧
            Parsing.parse code = .ok unit) → r.status = .failed) ∧
          (r.status = .failed → b.settled content = content) := by
  cases hFound : Discovery.files t root b.settings.included b.settings.excluded with
  | error why =>
    simp only [perform, hFound]
    rfl
  | ok found =>
    obtain ⟨hFiles, hNodup, hNames⟩ := files_found hProper hFound
    replace hApart := hApart.imp_right fun h => h found hFound
    dsimp only
    replace hNames : ((found.map (b.outcomeAt t (baseOf t root))).map (·.name)).Nodup := by
      simpa [List.map_map, Function.comp_def] using hNames
    refine ⟨⟨b.migrateFound t root found, perform_of_found hFound, ?_⟩,
      Pool.exists_complete .start, fun pool hReaches hComplete => ?_, ?_, ascending_inOrder hNames,
      fun p hp => ?_⟩
    · exact migrateFound_eq hUtf8 hInPlace hProper hFiles hApart
    · obtain ⟨hPerm, hTree⟩ :=
        eq_of_complete hUtf8 hProper hFiles hNodup hApart hReaches hComplete
      exact ⟨(inOrder_eq hPerm.symm hNames).symm, hTree⟩
    · rw [(perm_inOrder _).length_eq, List.length_map]
    · obtain ⟨place, content, hAt⟩ := FileTree.exists_fileAt (hFiles p hp)
      refine ⟨content, hAt.contents, ?_, b.outcomeAt t (baseOf t root) p,
        (perm_inOrder _).mem_iff.mpr (List.mem_map_of_mem hp), name_outcomeAt t _ p, ?_⟩
      · exact (settledTree_fileAt hAt (hAt.located ▸ List.mem_map_of_mem hp)).contents
      · rw [name_outcomeAt, outcomeAt_of_fileAt hAt]
        exact ⟨rfl, failed_of_unreadable,
          fun hFailed => settled_of_not_edited (by rw [hFailed]; decide)⟩

end Batch

end Tasks

namespace Batch

/-- A batch with the appender recipe. -/
def appenders (included : List String) : Batch where
  settings := { included }
  engine := ⟨Appender.recipe, Classpath.ofStubs defaultStubs⟩

/-- A class to be moved, and a file that is no text. -/
def mixedTree : FileTree :=
  ⟨.directory [("A.java", .file (Encoding.utf8.encode remarked.text)), ("B.java", .file [0xff])]⟩

theorem files_mixedTree : Discovery.files mixedTree {} ["**/*.java"] [] =
    .ok [⟨"", ["A.java"]⟩, ⟨"", ["B.java"]⟩] := by
  unfold Discovery.files
  rw [if_neg (by decide +kernel)]
  exact Discovery.found_of_sorted [⟨[.anyDirectories, .wildcard (.ofText "*.java")], false⟩]
    (by decide +kernel) (by decide +kernel) (by decide +kernel)

open Sample in
theorem batch_pointwise_mixedTree : letI := library [remarked, holder]
    ∃ found report, Discovery.files mixedTree {} ["**/*.java"] [] = .ok found ∧ found.length = 2 ∧
      (appenders ["**/*.java"]).perform mixedTree {} = .ok report ∧
      report.results.length = found.length ∧
      report.tree = (appenders ["**/*.java"]).settledTree mixedTree found ∧
      (∃ r ∈ report.results, r.name = "B.java" ∧ r.status = .failed) ∧
      report.tree.content? ⟨"", ["B.java"]⟩ = some [0xff] := by
  let _ := library [remarked, holder]
  have hProper : mixedTree.isProper = true := by decide +kernel
  have hAll := @batch_pointwise _ (appenders ["**/*.java"]) mixedTree {} (by decide +kernel) (Or.inr rfl)
    hProper (Or.inr fun _ => apart_of_onward hProper (by decide +kernel))
  have hHere : Discovery.files mixedTree {} (appenders ["**/*.java"]).settings.included
      (appenders ["**/*.java"]).settings.excluded = _ := files_mixedTree
  rw [hHere] at hAll
  obtain ⟨⟨report, hReport, hResults, hTree⟩, -, -, hLength, -, hFiles⟩ := hAll
  obtain ⟨content, hBefore, hAfter, r, hr, hName, -, hFailed, hKept⟩ :=
    hFiles ⟨"", ["B.java"]⟩ (by simp)
  obtain rfl : [0xff] = content := by
    simpa [show mixedTree.content? ⟨"", ["B.java"]⟩ = some [0xff] by decide +kernel] using hBefore
  have hText : Encoding.utf8.decode [0xff] = .error _ := rfl
  replace hFailed := hFailed fun ⟨code, _, hCode, _⟩ => nomatch hText.symm.trans hCode
  rw [hKept hFailed, ← hTree] at hAfter
  have hHome : (FilePath.relativeTo ⟨"", ["B.java"]⟩ (baseOf mixedTree {})).text = "B.java" := by
    decide +kernel
  exact ⟨_, report, files_mixedTree, rfl, hReport, hResults ▸ hLength, hTree,
    ⟨r, hResults ▸ hr, hName.trans hHome, hFailed⟩, hAfter⟩

end Batch

end SourceMigration
