import SourceMigration.CommandLine.Run
import SourceMigration.Proofs.Batch.Foretold
import SourceMigration.Proofs.Batch.Pool
import SourceMigration.Proofs.Console.Shown
import SourceMigration.StandIn.Pydantic

/-!
# SourceMigration — a check predicts a migration

Checking and migrating start alike: there must be something at the path, and the same settings are
loaded. What a check finds in its dry run is what a migration does, so both end with the code zero in
the same cases, those in which nothing changes and nothing fails, as far as a migration can say what it
is about.

## Results

* `checkWith_zero_iff`     — when a check ends with the code zero.
* `migrateWith_zero_iff`   — when a migration does and leaves all files as they are.
* `check_predicts_migrate` — the former predicts the latter, and the dry run what is written.
-/

namespace SourceMigration

namespace CommandLine

variable {g : Registry} {t : FileTree} {path : FilePath} {recipe : Option String} {s s' : Screen}
  {b : Batch} {rs : List MigrationResult} {found : List FilePath}

-- ---------------------------------------------------------------------------
-- What is said
-- ---------------------------------------------------------------------------

theorem exists_say [Rich] {level : Level} {message : String} (hLevel : level ≠ .debug) :
    (∃ s', say s level message = .ok s') ↔ level.Shows message := by
  unfold say
  simp only [mapError_eq_ok_iff]
  exact Screen.exists_log message (Or.inl hLevel)

theorem isVerbose_say [Rich] {level : Level} {message : String} (h : say s level message = .ok s') :
    s'.isVerbose = s.isVerbose :=
  Screen.isVerbose_log (mapError_eq_ok_iff.mp h)

/-- A number is written without a bracket. -/
theorem noBracket_count (n : Nat) (after : String) (h : '[' ∉ after.toList) :
    '[' ∉ (toString n ++ after).toList := by
  have hRepr : (toString n).toList = Nat.toDigits 10 n := by simp [Nat.repr]
  rw [String.toList_append, List.mem_append, hRepr, not_or]
  refine ⟨fun hDigit => ?_, h⟩
  exact absurd (Nat.isDigit_of_mem_toDigits (by decide) (by decide) hDigit) (by decide)

/-- A message without a bracket is shown. -/
theorem exists_say_of_noBracket [Rich] [LawfulRich] (level : Level) {message : String}
    (hLevel : level ≠ .debug)
    (h : '[' ∉ message.toList) : ∃ s', say s level message = .ok s' :=
  (exists_say hLevel).mpr (level.shows_of_noBracket h)

/-- What is said of a path and a recipe before the files under the path are migrated or checked. -/
def announcements (path : FilePath) (recipe : String) (count : Nat) : List (Level × String) :=
  [(.debug, "Discovered " ++ toString count ++ " files under " ++ path.text),
    (.warning, "No matching files found in " ++ path.text),
    (.info, "Processing " ++ toString count ++ " files from " ++ pathText path.text ++
      " with recipe [code]" ++ recipe ++ "[/code]...")]

-- ---------------------------------------------------------------------------
-- Results without an edit
-- ---------------------------------------------------------------------------

/-- Nothing would change, and nothing failed. -/
def IsIdle (rs : List MigrationResult) : Prop := ∀ r ∈ rs, r.status = .unchanged

@[simp] theorem isIdle_nil : IsIdle [] := fun _ h => nomatch h

theorem isIdle_iff : IsIdle rs ↔
    (∀ r ∈ rs, r.status ≠ .edited) ∧ rs.any (·.status == .failed) = false := by
  simp only [IsIdle, List.any_eq_false, beq_iff_eq, ← forall_and]
  refine forall_congr' fun r => ?_
  cases r.status <;> simp

theorem pending_eq_nil_iff : ((rs.filter (·.status == .edited)).isEmpty &&
    (rs.filter (·.status == .failed)).isEmpty) = true ↔ IsIdle rs := by
  simp only [IsIdle, Bool.and_eq_true, List.isEmpty_iff, List.filter_eq_nil_iff, beq_iff_eq,
    ← forall_and]
  refine forall_congr' fun r => ?_
  cases r.status <;> simp

/-- What would change and what failed is shown with the code zero if there is neither. -/
theorem showPending_zero [Rich] [LawfulRich] : (∃ s', showPending rs s = .ok (0, s')) ↔ IsIdle rs := by
  constructor
  · rintro ⟨s', h⟩
    unfold showPending at h
    obtain ⟨s₁, -, h⟩ := bind_eq_ok_iff.mp h
    obtain ⟨s₂, -, h⟩ := bind_eq_ok_iff.mp h
    split at h
    · exact pending_eq_nil_iff.mp ‹_›
    · obtain ⟨s₃, -, h⟩ := bind_eq_ok_iff.mp h
      cases h
  · intro hIdle
    have hNone := pending_eq_nil_iff.mpr hIdle
    obtain ⟨hEdited, hFailed⟩ := Bool.and_eq_true_iff.mp hNone
    obtain ⟨s', hSay⟩ := exists_say_of_noBracket (s := s) .success (by decide)
      (noBracket_count rs.length " files checked, nothing to migrate." (by decide))
    refine ⟨s', ?_⟩
    unfold showPending
    rw [List.isEmpty_iff.mp hEdited, List.isEmpty_iff.mp hFailed]
    -- there is nothing to list before the message
    refine bind_eq_ok_iff.mpr ⟨s, rfl, bind_eq_ok_iff.mpr ⟨s, rfl, ?_⟩⟩
    exact bind_eq_ok_iff.mpr ⟨s', hSay, rfl⟩

/-- A summary of results without an edit or a failure is shown. -/
theorem exists_summarize [Rich] [LawfulRich] (isDry : Bool) (h : IsIdle rs) :
    ∃ s', summarize rs isDry s = .ok s' := by
  have hCount (status : MigrationStatus) (hStatus : status ≠ .unchanged) :
      rs.countP (·.status == status) = 0 := by
    refine List.countP_eq_zero.mpr fun r hr => ?_
    rw [h r hr]
    simpa using hStatus.symm
  unfold summarize
  simp only [hCount .edited (by decide), hCount .failed (by decide), and_self, if_true]
  refine exists_say_of_noBracket .success (by decide) ?_
  rw [String.append_assoc, String.toList_append, List.mem_append, not_or]
  exact ⟨by decide, noBracket_count rs.length _ (by decide)⟩

-- ---------------------------------------------------------------------------
-- Commands
-- ---------------------------------------------------------------------------

/-- The settings that a command loads for a path. -/
def loaded [Pydantic] (g : Registry) (t : FileTree) (path : FilePath) (recipe : Option String) :
    Except LoadFault Settings :=
  Settings.load g t (Batch.baseOf t path) { recipe := overrideOf recipe }

theorem settingsFor_eq_some_iff [Rich] [Pydantic] {settings : Settings} :
    settingsFor g t path { recipe := overrideOf recipe } s = .ok (some settings, s') ↔
      loaded g t path recipe = .ok settings ∧ s' = s := by
  unfold settingsFor loaded
  split
  · rename_i settings' hLoad
    simp [hLoad, eq_comm]
  · rename_i why hLoad
    simp only [hLoad, reduceCtorEq, false_and, iff_false]
    split
    · simp [bind_eq_ok_iff, pure, Except.pure]
    · simp

/-- How a command starts: there must be something at the path, and settings that can be loaded. -/
theorem started_iff [Rich] [Pydantic] {k : Settings → Screen → Except RunFault RunReport}
    {P : RunReport → Prop}
    (hP : ∀ r, P r → r.code = 0) :
    (∃ r, (do
      if !t.exists? path then notFound t path s
      else
        match ← settingsFor g t path { recipe := overrideOf recipe } s with
        | (none, s) => return ⟨1, s, t⟩
        | (some settings, s) => k settings s) = .ok r ∧ P r) ↔
      t.exists? path = true ∧
        ∃ settings, loaded g t path recipe = .ok settings ∧ ∃ r, k settings s = .ok r ∧ P r := by
  cases hExists : t.exists? path with
  | false =>
    simp only [Bool.not_false, if_true, Bool.false_eq_true, false_and, iff_false]
    rintro ⟨r, hRun, hr⟩
    obtain ⟨s', -, h⟩ := bind_eq_ok_iff.mp hRun
    obtain rfl := Except.ok.inj h
    exact absurd (hP _ hr) Nat.one_ne_zero
  | true =>
    simp only [Bool.not_true, Bool.false_eq_true, if_false, true_and, bind_eq_ok_iff]
    constructor
    · rintro ⟨r, ⟨⟨settings?, s'⟩, hSettings, hRun⟩, hr⟩
      cases settings? with
      | none =>
        obtain rfl := Except.ok.inj hRun
        exact absurd (hP _ hr) Nat.one_ne_zero
      | some settings =>
        obtain ⟨hLoad, rfl⟩ := settingsFor_eq_some_iff.mp hSettings
        exact ⟨settings, hLoad, r, hRun, hr⟩
    · rintro ⟨settings, hLoad, r, hRun, hr⟩
      exact ⟨r, ⟨_, settingsFor_eq_some_iff.mpr ⟨hLoad, rfl⟩, hRun⟩, hr⟩

theorem check_zero_iff [Rich] [Pydantic] [TreeSitter] : (∃ r, check g t path recipe s = .ok r ∧ r.code = 0) ↔
    t.exists? path = true ∧ ∃ settings, loaded g t path recipe = .ok settings ∧
      ∃ r, checkWith (batchOf g settings) t path s = .ok r ∧ r.code = 0 :=
  started_iff fun _ h => h

theorem migrate_zero_iff [Rich] [Pydantic] [TreeSitter] {P : RunReport → Prop} :
    (∃ r, migrate g t { path, recipe } s = .ok r ∧ r.code = 0 ∧ P r) ↔
      t.exists? path = true ∧ ∃ settings, loaded g t path recipe = .ok settings ∧
        ∃ r, migrateWith (batchOf g settings) t { path, recipe } s = .ok r ∧ r.code = 0 ∧ P r :=
  started_iff (P := fun r => r.code = 0 ∧ P r) fun _ h => h.1

-- ---------------------------------------------------------------------------
-- Files that were found
-- ---------------------------------------------------------------------------

section Found

variable (hFound : Discovery.files t path b.settings.included b.settings.excluded = .ok found)

include hFound

/-- A check ends with the code zero if its remarks can be shown, nothing would change and nothing
failed. -/
theorem checkWith_zero_iff [TreeSitter] [Rich] [LawfulRich] :
    (∃ r, checkWith b t path s = .ok r ∧ r.code = 0) ↔
    (s.isVerbose = true →
      ∀ m ∈ ({ b with isDry := true }.migrateFound t path found).remarks, Level.debug.Shows m) ∧
      IsIdle ({ b with isDry := true }.migrateFound t path found).results := by
  have hDone : ({ b with isDry := true } : Batch).perform t path = _ := Batch.perform_of_found hFound
  unfold checkWith
  rw [hDone]
  generalize ({ b with isDry := true } : Batch).migrateFound t path found = dry
  constructor
  · rintro ⟨r, hRun, hZero⟩
    obtain ⟨done, hPerformed, hRun⟩ := bind_eq_ok_iff.mp hRun
    obtain rfl := Except.ok.inj hPerformed
    obtain ⟨s₁, hDebug, hRun⟩ := bind_eq_ok_iff.mp hRun
    obtain ⟨⟨code, s₂⟩, hPending, hRun⟩ := bind_eq_ok_iff.mp hRun
    obtain rfl := Except.ok.inj hRun
    obtain rfl : code = 0 := hZero
    exact ⟨Screen.exists_debug.mp ⟨s₁, mapError_eq_ok_iff.mp hDebug⟩,
      showPending_zero.mp ⟨s₂, hPending⟩⟩
  · rintro ⟨hShown, hIdle⟩
    obtain ⟨s₁, hDebug⟩ := Screen.exists_debug.mpr hShown
    obtain ⟨s₂, hPending⟩ := showPending_zero.mpr hIdle
    refine ⟨⟨0, s₂, dry.tree⟩, bind_eq_ok_iff.mpr ⟨dry, rfl, ?_⟩, rfl⟩
    refine bind_eq_ok_iff.mpr ⟨s₁, mapError_eq_ok_iff.mpr hDebug, ?_⟩
    exact bind_eq_ok_iff.mpr ⟨(0, s₂), hPending, rfl⟩

/-- Where nothing is found, a migration says so and ends with the code zero. -/
theorem migrateWith_zero_iff_of_empty [Rich] [TreeSitter] (hNone : found = []) :
    (∃ r, migrateWith b t { path, recipe } s = .ok r ∧ r.code = 0 ∧
        ∀ p, r.tree.content? p = t.content? p) ↔
      Level.warning.Shows ("No matching files found in " ++ path.text) := by
  rw [← exists_say (s := s) (by decide)]
  subst hNone
  unfold migrateWith
  rw [hFound]
  constructor
  · rintro ⟨r, hRun, -⟩
    obtain ⟨none, hFiles, hRun⟩ := bind_eq_ok_iff.mp hRun
    obtain rfl := Except.ok.inj hFiles
    obtain ⟨s', hSay, -⟩ := bind_eq_ok_iff.mp hRun
    exact ⟨s', hSay⟩
  · rintro ⟨s', hSay⟩
    refine ⟨⟨0, s', t⟩, bind_eq_ok_iff.mpr ⟨[], rfl, ?_⟩, rfl, fun _ => rfl⟩
    exact bind_eq_ok_iff.mpr ⟨s', hSay, rfl⟩

/-- Otherwise it ends with the code zero and leaves all files as they are if the number of files and
its remarks can be shown, and no result is edited or failed. -/
theorem migrateWith_zero_iff [TreeSitter] [Rich] [LawfulRich] {dry : BatchReport} (hSome : found ≠ [])
    (hForetold : Batch.Foretold t (Batch.baseOf t path) found dry (b.migrateFound t path found)) :
    (∃ r, migrateWith b t { path, recipe } s = .ok r ∧ r.code = 0 ∧
        ∀ p, r.tree.content? p = t.content? p) ↔
      Level.info.Shows ("Processing " ++ toString found.length ++ " files from " ++
        pathText path.text ++ " with recipe [code]" ++ b.settings.recipe ++ "[/code]...") ∧
      (s.isVerbose = true → ∀ m ∈ dry.remarks, Level.debug.Shows m) ∧ IsIdle dry.results := by
  have hIdle : IsIdle dry.results ↔ (∀ p, (b.migrateFound t path found).tree.content? p = t.content? p) ∧
      (b.migrateFound t path found).results.any (·.status == .failed) = false := by
    rw [hForetold.results, isIdle_iff, hForetold.idle_iff]
  rw [← exists_say (s := s) (by decide), hForetold.remarks]
  have hMore : ¬ found.isEmpty = true := by simpa using hSome
  unfold migrateWith
  rw [hFound]
  constructor
  · rintro ⟨r, hRun, hZero, hSame⟩
    obtain ⟨files, hFiles, hRun⟩ := bind_eq_ok_iff.mp hRun
    obtain rfl := Except.ok.inj hFiles
    rw [if_neg hMore] at hRun
    obtain ⟨s₁, hSay, hRun⟩ := bind_eq_ok_iff.mp hRun
    obtain ⟨before, -, hRun⟩ := bind_eq_ok_iff.mp hRun
    obtain ⟨s₂, hDebug, hRun⟩ := bind_eq_ok_iff.mp hRun
    obtain ⟨⟨t', s₃⟩, hKept, hRun⟩ := bind_eq_ok_iff.mp hRun
    obtain ⟨s₄, -, hRun⟩ := bind_eq_ok_iff.mp hRun
    obtain rfl := Except.ok.inj hRun
    obtain ⟨rfl, rfl⟩ := Prod.mk.inj (Except.ok.inj hKept)
    have hVerbose : s₁.isVerbose = s.isVerbose := isVerbose_say hSay
    refine ⟨⟨s₁, hSay⟩, ?_, hIdle.mpr ⟨hSame, by simpa using hZero⟩⟩
    rw [← hVerbose]
    exact Screen.exists_debug.mp ⟨s₂, mapError_eq_ok_iff.mp hDebug⟩
  · rintro ⟨⟨s₁, hSay⟩, hShown, hNothing⟩
    obtain ⟨hSame, hNoFailure⟩ := hIdle.mp hNothing
    rw [← isVerbose_say hSay] at hShown
    obtain ⟨s₂, hDebug⟩ := Screen.exists_debug.mpr hShown
    obtain ⟨s₃, hSummary⟩ := exists_summarize (s := s₂) false (hForetold.results ▸ hNothing)
    refine ⟨⟨0, s₃, _⟩, bind_eq_ok_iff.mpr ⟨found, rfl, ?_⟩, rfl, hSame⟩
    rw [if_neg hMore]
    refine bind_eq_ok_iff.mpr ⟨s₁, hSay, bind_eq_ok_iff.mpr ⟨[], rfl, ?_⟩⟩
    refine bind_eq_ok_iff.mpr ⟨s₂, mapError_eq_ok_iff.mpr hDebug, ?_⟩
    refine bind_eq_ok_iff.mpr ⟨(_, s₂), rfl, bind_eq_ok_iff.mpr ⟨s₃, hSummary, ?_⟩⟩
    rw [hNoFailure]
    rfl

omit hFound in
/-- A pattern that is none ends both without a code. -/
theorem zero_iff_of_error [Rich] [TreeSitter] {why : GlobFault}
    (hError : Discovery.files t path b.settings.included b.settings.excluded = .error why) :
    (∃ r, checkWith b t path s = .ok r ∧ r.code = 0) ↔
      ∃ r, migrateWith b t { path, recipe } s = .ok r ∧ r.code = 0 ∧
        ∀ p, r.tree.content? p = t.content? p := by
  constructor
  · rintro ⟨r, hRun, -⟩
    obtain ⟨done, hDone, -⟩ := bind_eq_ok_iff.mp hRun
    unfold Batch.perform at hDone
    rw [hError] at hDone
    cases hDone
  · rintro ⟨r, hRun, -⟩
    obtain ⟨found, hFiles, -⟩ := bind_eq_ok_iff.mp hRun
    rw [hError] at hFiles
    cases hFiles

end Found

/-- A check predicts a migration. With the settings that both load for a path, a dry run gives the same
results as a run that writes, and writes nothing; the run that writes changes the files whose results
are edited, each to the text of its result, and no others. The check ends with the code zero if and only
if the migration does and leaves all files as they are.

This holds as long as no two of the paths lead to one file, and what is said of the path and the recipe
can be shown. -/
theorem check_predicts_migrate [Pydantic] [TreeSitter] [Rich] [LawfulRich] (hProper : t.isProper = true)
    (hUtf8 : ∀ settings, loaded g t path recipe = .ok settings →
      Encoding.ofName? settings.encoding = some .utf8)
    (hApart : ∀ settings found, loaded g t path recipe = .ok settings →
      Discovery.files t path settings.included settings.excluded = .ok found →
        (found.map t.locate).Nodup)
    (hSound : ∀ settings found, loaded g t path recipe = .ok settings →
      Discovery.files t path settings.included settings.excluded = .ok found →
        ∀ m ∈ announcements path settings.recipe found.length, m.1.Shows m.2) :
    (∀ settings, loaded g t path recipe = .ok settings →
      let b := batchOf g settings
      match Discovery.files t path settings.included settings.excluded with
      | .error why =>
        { b with isDry := true }.perform t path = .error why ∧ b.perform t path = .error why
      | .ok found => ∃ dry done,
        { b with isDry := true }.perform t path = .ok dry ∧ b.perform t path = .ok done ∧
          Batch.Foretold t (Batch.baseOf t path) found dry done) ∧
    ((∃ r, check g t path recipe s = .ok r ∧ r.code = 0) ↔
      ∃ r, migrate g t { path, recipe } s = .ok r ∧ r.code = 0 ∧
        ∀ p, r.tree.content? p = t.content? p) := by
  have hForetold {settings : Settings} {found : List FilePath}
      (hLoad : loaded g t path recipe = .ok settings)
      (hFound : Discovery.files t path settings.included settings.excluded = .ok found) :
      Batch.Foretold t (Batch.baseOf t path) found
        ({ batchOf g settings with isDry := true }.migrateFound t path found)
        ((batchOf g settings).migrateFound t path found) :=
    Batch.foretold_migrateFound (hUtf8 settings hLoad) rfl rfl hProper
      (Batch.files_found hProper hFound).1 (hApart settings found hLoad hFound)
  constructor
  · intro settings hLoad
    cases hFound : Discovery.files t path settings.included settings.excluded with
    | error why => simp [Batch.perform, batchOf, hFound, Except.map]
    | ok found =>
      exact ⟨_, _, Batch.perform_of_found hFound, Batch.perform_of_found hFound,
        hForetold hLoad hFound⟩
  · rw [check_zero_iff, migrate_zero_iff]
    refine and_congr_right fun _ => exists_congr fun settings => and_congr_right fun hLoad => ?_
    cases hFound : Discovery.files t path settings.included settings.excluded with
    | error why => exact zero_iff_of_error hFound
    | ok found =>
      have hSaid := hSound settings found hLoad hFound
      simp only [announcements, List.forall_mem_cons] at hSaid
      obtain ⟨hCount, hWarning, hInfo, -⟩ := hSaid
      by_cases hNone : found = []
      · rw [checkWith_zero_iff hFound, migrateWith_zero_iff_of_empty hFound hNone]
        subst hNone
        rw [Batch.results_migrateFound_nil]
        exact iff_of_true ⟨fun _ => List.forall_mem_singleton.mpr hCount, isIdle_nil⟩ hWarning
      · rw [checkWith_zero_iff hFound, migrateWith_zero_iff hFound hNone (hForetold hLoad hFound)]
        exact (and_iff_right hInfo).symm

open StandIn Sample in
theorem check_predicts_migrate_mixedTree : letI := library [remarked, holder]
    ∃ found dry done, Discovery.files Batch.mixedTree {} ["**/*.java"] [] = .ok found ∧ found.length = 2 ∧
      { batchOf {} {} with isDry := true }.perform Batch.mixedTree {} = .ok dry ∧
      (batchOf {} {}).perform Batch.mixedTree {} = .ok done ∧
      Batch.Foretold Batch.mixedTree (Batch.baseOf Batch.mixedTree {}) found dry done ∧
      ((∃ r, check {} Batch.mixedTree {} none {} = .ok r ∧ r.code = 0) ↔
        ∃ r, migrate {} Batch.mixedTree { path := {} } {} = .ok r ∧ r.code = 0 ∧
          ∀ p, r.tree.content? p = Batch.mixedTree.content? p) := by
  let _ := library [remarked, holder]
  have hLoad : loaded {} Batch.mixedTree {} none = .ok {} := by decide +kernel
  have hProper : Batch.mixedTree.isProper = true := by decide +kernel
  have hPatterns : ∀ s ∈ ["**/*.java"], ".." ∉ (FilePath.ofText s).names := by decide +kernel
  have hShown : ∀ m ∈ announcements {} Appender.recipe.name 2, m.1.Shows m.2 := by
    simp only [announcements, List.forall_mem_cons]
    have hInfo : ∃ ls, (Rich.log Level.info.title (Level.info.mark ++ ("Processing 2 files from " ++
        pathText "." ++ " with recipe [code]" ++ Appender.recipe.name ++ "[/code]..."))).toOption = some ls :=
      Option.isSome_iff_exists.mp (by decide +kernel)
    obtain ⟨ls, hLines⟩ := hInfo
    exact ⟨Level.shows_of_noBracket _ (by decide +kernel),
      Level.shows_of_noBracket _ (by decide +kernel), ⟨ls, ok_of_toOption hLines⟩, nofun⟩
  have hAll := @check_predicts_migrate {} Batch.mixedTree {} none {} _ _ _ _ hProper
    (fun settings h => by
      obtain rfl := Except.ok.inj (hLoad.symm.trans h)
      decide +kernel)
    (fun settings found h hFound => by
      obtain rfl := Except.ok.inj (hLoad.symm.trans h)
      exact Batch.apart_of_onward hProper hPatterns hFound)
    (fun settings found h hFound => by
      obtain rfl := Except.ok.inj (hLoad.symm.trans h)
      obtain rfl := Except.ok.inj (Batch.files_mixedTree.symm.trans hFound)
      exact hShown)
  obtain ⟨hRuns, hCodes⟩ := hAll
  have hDone := hRuns {} hLoad
  rw [show Discovery.files Batch.mixedTree {} _ _ = _ from Batch.files_mixedTree] at hDone
  obtain ⟨dry, done, hDry, hDone, hForetold⟩ := hDone
  exact ⟨_, dry, done, Batch.files_mixedTree, rfl, hDry, hDone, hForetold, hCodes⟩

end CommandLine

end SourceMigration
