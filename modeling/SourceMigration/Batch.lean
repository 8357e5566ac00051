import SourceMigration.Files.Discovery
import SourceMigration.Files.Encoding
import SourceMigration.Migration
import SourceMigration.Settings.Basic
import SourceMigration.Typing.KnownTypes

/-!
# SourceMigration — batches

One recipe applied to every file that a run is about. Each file is a task of its own: it is read,
migrated and written, and a failure of one never stops the others. Results are kept under the
paths below the root, in the order of these.

Migrated texts replace the files they come from, or all texts go to another directory,
unchanged ones too, so that nothing is missing there. What failed is never written, and
in a dry run nothing is.
-/

namespace SourceMigration

/-- The engine that settings ask for, if their recipe is registered. -/
def Engine.ofSettings? (g : Registry) (s : Settings) : Option Engine :=
  (g.find? s.recipe).map fun recipe =>
    ⟨recipe, Classpath.ofStubs defaultStubs (s.classpath.map TypeName.mk)⟩

/-- A task for every file of a run. -/
structure Batch where
  settings : Settings
  engine : Engine
  /-- The directory that all texts go to, instead of back into their files. -/
  destination : Option FilePath := none
  /-- Whether nothing is written. -/
  isDry : Bool := false
  deriving Inhabited

/-- What a batch did. -/
structure BatchReport where
  /-- One result for each file, in the order of the paths. -/
  results : List MigrationResult
  /-- The files afterwards. -/
  tree : FileTree
  /-- What was remarked on the way. -/
  remarks : List String
  deriving Inhabited

/-- The path below the root, under which a result is kept. -/
def MigrationResult.name (r : MigrationResult) : String := r.path.getD ""

/-- The result of a file that could not be read or written. -/
def MigrationResult.ofFileFault (name : String) (why : FileFault) (remarks : List String) :
    MigrationResult :=
  { path := some name
    status := .failed
    code := ""
    faults := [.file why]
    remarks := remarks ++ ["Migration of " ++ name ++ " failed"] }

namespace Batch

/-! ## One file -/

/-- The text of a file. -/
def readText (s : Settings) (t : FileTree) (p : FilePath) : Except FileFault String := do
  -- A missing file is reported before an unknown encoding.
  let content ← t.read p
  match Encoding.ofName? s.encoding with
  | none => throw (.unknownEncoding s.encoding)
  | some e => (e.decode content).mapError .undecodable

/-- Writes a text to a file. -/
def writeText (s : Settings) (t : FileTree) (p : FilePath) (text : String) :
    Except FileFault FileTree :=
  match Encoding.ofName? s.encoding with
  | none => .error (.unknownEncoding s.encoding)
  | some e => t.write p (e.encode text)

/-- Writes a result where it belongs, if anywhere. -/
def writeResult (b : Batch) (t : FileTree) (p : FilePath) (r : MigrationResult) :
    Except FileFault FileTree :=
  -- What failed is never written, not even to another directory.
  if b.isDry || r.status == .failed then .ok t
  else
    match b.destination with
    | some directory => do
      let target := directory.join (FilePath.ofText r.name)
      -- The directories on the way there are made as they are needed.
      writeText b.settings (← t.makeDirectories target.parent) target r.code
    -- In place, a text that did not change is left alone.
    | none => if r.status == .edited then writeText b.settings t p r.code else .ok t

/-- Migrates one file. -/
def migrateFile [TreeSitter] (b : Batch) (base : FilePath) (t : FileTree) (p : FilePath) :
    MigrationResult × FileTree :=
  let name := (p.relativeTo base).text
  match readText b.settings t p with
  | .error why => (.ofFileFault name why [], t)
  | .ok code =>
    let r := b.engine.run code (some name)
    match b.writeResult t p r with
    | .error why => (.ofFileFault name why r.remarks, t)
    | .ok t => (r, t)

/-! ## All files -/

/-- Migrates files one after the other. -/
def migrateFiles [TreeSitter] (b : Batch) (base : FilePath) :
    List FilePath → FileTree → List MigrationResult × FileTree
  | [], t => ([], t)
  | p :: ps, t =>
    let (r, t) := b.migrateFile base t p
    let (rs, t) := b.migrateFiles base ps t
    (r :: rs, t)

/-- The directory that paths in results start from: the root, or the directory of a single file. -/
def baseOf (t : FileTree) (root : FilePath) : FilePath :=
  if t.isDirectory root then root else root.parent

/-- Migrates files that were found under a root. -/
def migrateFound [TreeSitter] (b : Batch) (t : FileTree) (root : FilePath) (found : List FilePath) :
    BatchReport :=
  let (results, after) := b.migrateFiles (baseOf t root) found t
  let count := "Discovered " ++ toString found.length ++ " files under " ++ root.text
  { results := results.mergeSort fun r s => !(s.name < r.name)
    tree := after
    remarks := count :: results.flatMap (·.remarks) }

/-- Migrates all files under a root that the settings select. -/
def perform [TreeSitter] (b : Batch) (t : FileTree) (root : FilePath) : Except GlobFault BatchReport :=
  (Discovery.files t root b.settings.included b.settings.excluded).map (b.migrateFound t root)

/-! ## What a run keeps -/

section Library

variable [TreeSitter]

omit [TreeSitter] in
theorem writeResult_of_dry {b : Batch} (h : b.isDry = true) (t : FileTree) (p : FilePath)
    (r : MigrationResult) : b.writeResult t p r = .ok t := by
  simp [writeResult, h]

theorem migrateFile_of_dry {b : Batch} (h : b.isDry = true) (base : FilePath) (t : FileTree)
    (p : FilePath) : (b.migrateFile base t p).2 = t := by
  unfold migrateFile
  cases readText b.settings t p with
  | error why => rfl
  | ok code => simp [writeResult_of_dry h]

theorem migrateFiles_of_dry {b : Batch} (h : b.isDry = true) (base : FilePath)
    (ps : List FilePath) (t : FileTree) : (b.migrateFiles base ps t).2 = t := by
  induction ps generalizing t with
  | nil => rfl
  | cons p ps ih => simp [migrateFiles, ih, migrateFile_of_dry h]

end Library

end Batch

end SourceMigration
