import SourceMigration.Batch
import SourceMigration.CommandLine.Arguments
import SourceMigration.Console.Screen
import SourceMigration.Report
import SourceMigration.Settings.Load
import SourceMigration.Text.LineDiff

/-!
# SourceMigration — running a command

What a command does to the files and what it shows. A run ends with a code: zero if all went
well, one if a file failed or, for `check`, if a file would change. Faults that a user can mend
are shown; others end the run.
-/

namespace SourceMigration

/-- Why a run ended before its time. -/
inductive RunFault where
  | settings (why : LoadFault)
  | pattern (why : GlobFault)
  | markup (why : MarkupFault)
  | file (why : FileFault)
  deriving DecidableEq, Repr

/-- What a run left behind. -/
structure RunReport where
  code : Nat
  screen : Screen
  tree : FileTree
  deriving Inhabited

/-- How a command line was answered. -/
inductive RunOutcome where
  /-- Nothing was run. -/
  | halted (why : Halt)
  | finished (report : RunReport)

namespace CommandLine

/-- The name of the program, and its version. -/
def versionText : String := "logshift 0.0.1"

/-! ## Showing -/

/-- Shows a message; a text that cannot be shown ends the run. -/
def say [Rich] (s : Screen) (level : Level) (message : String) : Except RunFault Screen :=
  (s.log level message).mapError .markup

/-- Shows a text. -/
def tell [Rich] (s : Screen) (message : String) : Except RunFault Screen :=
  (s.print message).mapError .markup

/-- The marked-up form of a path. -/
def pathText (p : String) : String := "[path]" ++ p ++ "[/path]"

/-- The errors of a result, one after the other. -/
def errorText (r : MigrationResult) : String := "; ".intercalate (r.faults.map MigrationFault.message)

/-- What is said of settings that cannot be loaded. -/
def settingsText (why : LoadFault) : Option String :=
  match why with
  | .invalid _ => why.message?.map (· ++ ":")
  | _ => why.message?

/-! ## What commands share -/

/-- Loads the settings for a path; none if their faults are shown instead. -/
def settingsFor [Pydantic] [Rich] (g : Registry) (t : FileTree) (path : FilePath) (o : Overrides)
    (s : Screen) : Except RunFault (Option Settings × Screen) :=
  match Settings.load g t (Batch.baseOf t path) o with
  | .ok settings => .ok (some settings, s)
  | .error why =>
    match settingsText why with
    | some text => do return (none, ← say s .error (Rich.escape text))
    -- What no user can mend in the settings ends the run.
    | none => .error (.settings why)

/-- The batch that settings ask for. The recipe of settings that were loaded is registered. -/
def batchOf (g : Registry) (settings : Settings) : Batch :=
  { settings, engine := (Engine.ofSettings? g settings).getD default }

/-- A value of an override. -/
def overrideOf (s : Option String) : SettingValue := (s.map .text).getD .null

/-- Says that there is nothing at a path. -/
def notFound [Rich] (t : FileTree) (path : FilePath) (s : Screen) : Except RunFault RunReport := do
  return ⟨1, ← say s .error ("Input not found: " ++ path.text), t⟩

/-! ## Migrating -/

/-- The texts of files under their names, for differences; files that cannot be read have none. -/
def textsBefore (settings : Settings) (t : FileTree) (base : FilePath) :
    List FilePath → Except RunFault (List (String × String))
  | [] => .ok []
  | p :: ps =>
    match Batch.readText settings t p with
    | .ok text => (textsBefore settings t base ps).map (((p.relativeTo base).text, text) :: ·)
    | .error (.unknownEncoding name) => .error (.file (.unknownEncoding name))
    | .error _ => textsBefore settings t base ps

/-- Shows the differences of all files that were edited. -/
def showDifferences [Rich] (before : List (String × String)) (rs : List MigrationResult) (s : Screen) :
    Screen :=
  rs.foldl
    (fun s r =>
      match r.status, before.lookup r.name with
      | .edited, some old => s.difference (LineDiff.unified r.name old r.code)
      | _, _ => s)
    s

/-- Writes a report. -/
def writeReport (t : FileTree) (path : FilePath) (rs : List MigrationResult) :
    Except FileFault FileTree := do
  let t ← t.makeDirectories path.parent
  t.write path (Encoding.utf8.encode (ReportValue.ofResults rs).render)

/-- Writes a report, and says how that went. -/
def saveReport [Rich] (t : FileTree) (path : FilePath) (rs : List MigrationResult) (s : Screen) :
    Except RunFault (FileTree × Screen) :=
  match writeReport t path rs with
  | .ok t => do return (t, ← say s .info ("Report saved to " ++ pathText path.text))
  | .error why => do return (t, ← say s .error ("Failed to write report: " ++ why.message))

/-- The row of a result in the summary; what is unchanged has none. -/
def summaryRow [Rich] (r : MigrationResult) : Option (List String) :=
  let issues := Rich.escape (errorText r)
  match r.status with
  | .edited => some [r.name, "✏️ Edited", issues]
  | .failed => some [r.name, "❌ Failed", issues]
  | .unchanged => none

/-- Shows what became of all files. -/
def summarize [Rich] (rs : List MigrationResult) (isDry : Bool) (s : Screen) : Except RunFault Screen := do
  let edited := rs.countP (·.status == .edited)
  let failed := rs.countP (·.status == .failed)
  if edited = 0 ∧ failed = 0 then
    say s .success
      ("Batch Complete: " ++ toString rs.length ++ " files checked, nothing to migrate.")
  else
    let s ← (s.table "Migration Report" ["File", "Status", "Issues"]
      (rs.filterMap summaryRow)).mapError .markup
    let verb := if isDry then "would be migrated" else "migrated"
    tell s ("\n[bold]Summary:[/bold] " ++ toString edited ++ " " ++ verb ++ ", " ++
      toString (rs.length - edited - failed) ++ " unchanged, " ++ toString failed ++ " failed.")

/-- Migrates the files under a path with the given settings. -/
def migrateWith [TreeSitter] [Rich] (b : Batch) (t : FileTree) (o : MigrateOptions) (s : Screen) :
    Except RunFault RunReport := do
  let found ← (Discovery.files t o.path b.settings.included b.settings.excluded).mapError .pattern
  if found.isEmpty then
    return ⟨0, ← say s .warning ("No matching files found in " ++ o.path.text), t⟩
  let s ← say s .info ("Processing " ++ toString found.length ++ " files from " ++
    pathText o.path.text ++ " with recipe [code]" ++ b.settings.recipe ++ "[/code]...")
  -- The texts are kept before any file is written.
  let before ← if o.showsDiff then textsBefore b.settings t (Batch.baseOf t o.path) found
    else pure []
  let done := b.migrateFound t o.path found
  let s ← (s.debug done.remarks).mapError .markup
  let s := if o.showsDiff then showDifferences before done.results s else s
  let (t, s) ← match o.report with
    | some path => saveReport done.tree path done.results s
    | none => pure (done.tree, s)
  let s ← summarize done.results o.isDry s
  return ⟨if done.results.any (·.status == .failed) then 1 else 0, s, t⟩

/-- Migrates the files under a path. -/
def migrate [TreeSitter] [Pydantic] [Rich] (g : Registry) (t : FileTree) (o : MigrateOptions)
    (s : Screen) : Except RunFault RunReport := do
  if !t.exists? o.path then notFound t o.path s
  else
    let overrides : Overrides :=
      { recipe := overrideOf o.recipe, workers := (o.workers.map .whole).getD .null }
    match ← settingsFor g t o.path overrides s with
    | (none, s) => return ⟨1, s, t⟩
    | (some settings, s) =>
      migrateWith { batchOf g settings with destination := o.out, isDry := o.isDry } t o s

/-! ## Checking -/

/-- Shows which files would change and which failed. -/
def showPending [Rich] (rs : List MigrationResult) (s : Screen) : Except RunFault (Nat × Screen) := do
  let pending := rs.filter (·.status == .edited)
  let failed := rs.filter (·.status == .failed)
  let s ← pending.foldlM (fun s r => tell s ("would migrate " ++ pathText r.name)) s
  let s ← failed.foldlM
    (fun s r => say s .error (Rich.escape (r.name ++ ": " ++ errorText r))) s
  if pending.isEmpty && failed.isEmpty then
    return (0, ← say s .success (toString rs.length ++ " files checked, nothing to migrate."))
  return (1, ← say s .warning (toString pending.length ++ " of " ++ toString rs.length ++
    " files would be migrated."))

/-- Checks the files under a path with the given settings. -/
def checkWith [TreeSitter] [Rich] (b : Batch) (t : FileTree) (path : FilePath) (s : Screen) :
    Except RunFault RunReport := do
  let done ← ({ b with isDry := true }.perform t path).mapError .pattern
  let s ← (s.debug done.remarks).mapError .markup
  let (code, s) ← showPending done.results s
  return ⟨code, s, done.tree⟩

/-- Checks the files under a path. -/
def check [TreeSitter] [Pydantic] [Rich] (g : Registry) (t : FileTree) (path : FilePath)
    (recipe : Option String) (s : Screen) : Except RunFault RunReport := do
  if !t.exists? path then notFound t path s
  else
    match ← settingsFor g t path { recipe := overrideOf recipe } s with
    | (none, s) => return ⟨1, s, t⟩
    | (some settings, s) => checkWith (batchOf g settings) t path s

/-! ## Listing recipes -/

/-- Shows all recipes. -/
def listRecipes [Rich] (g : Registry) (t : FileTree) (s : Screen) : Except RunFault RunReport := do
  if g.recipes.isEmpty then return ⟨0, ← say s .warning "No recipes registered.", t⟩
  let rows := g.names.filterMap fun n =>
    (g.find? n).map fun r => [n, r.title, r.description]
  let s ← (s.table "Available Recipes" ["Name", "Title", "Description"] rows).mapError .markup
  return ⟨0, s, t⟩

/-! ## All commands -/

/-- Runs a command. -/
def perform [TreeSitter] [Pydantic] [Rich] (g : Registry) (t : FileTree) (i : Invocation) :
    Except RunFault RunReport :=
  let s : Screen := { isVerbose := i.isVerbose }
  match i.command with
  | .migrate o => migrate g t o s
  | .check path recipe => check g t path recipe s
  | .recipes => listRecipes g t s

/-- Answers a command line. -/
def run [TreeSitter] [Pydantic] [Rich] (g : Registry) (t : FileTree) (words : List String) :
    Except RunFault RunOutcome :=
  match Invocation.ofWords words with
  | .error why => .ok (.halted why)
  | .ok i => (perform g t i).map .finished

/-! ## Checking changes nothing -/

end CommandLine

end SourceMigration
