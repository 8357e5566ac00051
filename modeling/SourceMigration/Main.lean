import SourceMigration.CommandLine.Run
import SourceMigration.StandIn.Console.Library
import SourceMigration.StandIn.Java.Library
import SourceMigration.StandIn.Pydantic

/-!
# SourceMigration — the program

Reads the files below the working directory, answers the command line, shows the screen and
writes the files that changed.
-/

namespace SourceMigration.Program

/-- A short account of the command line. -/
def usage : String :=
  "usage: [-h] [--version] [-v] COMMAND\n\n" ++
  "  migrate PATH [--recipe NAME] [--out DIR] [--dry-run] [--diff] [--workers N]\n" ++
  "               [--json-report FILE]\n" ++
  "  check PATH [--recipe NAME]\n" ++
  "  recipes"

/-- Reads a file, or a directory with all that is below it. -/
partial def readEntry (e : IO.FS.DirEntry) : IO (String × FileNode) := do
  if ← e.path.isDir then
    let entries ← (← e.path.readDir).toList.mapM readEntry
    return (e.fileName, .directory (entries.mergeSort fun a b => !(b.1 < a.1)))
  else return (e.fileName, .file (← IO.FS.readBinFile e.path).toList)

/-- Reads the files below the working directory. -/
def readTree : IO FileTree := do
  let entries ← (← (← IO.currentDir).readDir).toList.mapM readEntry
  return ⟨.directory (entries.mergeSort fun a b => !(b.1 < a.1))⟩

/-- Writes the files that changed. -/
def writeChanges (before after : FileTree) : IO Unit := do
  for (path, content) in after.changedSince before do
    IO.FS.createDirAll path.parent.text
    IO.FS.writeBinFile path.text ⟨content.toArray⟩

/-- Shows a screen. -/
def display (s : Screen) : IO Unit := do
  for item in s.shown do
    match item with
    | .line text => IO.println text
    | .row cells => IO.println (" | ".intercalate cells)

/-- What is said of a fault that ends a run. -/
def faultText : RunFault → String
  | .settings why => why.message?.getD "The settings file has no usable table."
  | .pattern why => why.message
  | .markup why => why.message
  | .file why => why.message

end SourceMigration.Program

open SourceMigration StandIn

/-- Answers the command line in the working directory. -/
def main (words : List String) : IO UInt32 := do
  let before ← Program.readTree
  match CommandLine.run {} before words with
  | .error why => do
    IO.eprintln (Program.faultText why)
    return 1
  | .ok (.halted .help) => do
    IO.println Program.usage
    return 0
  | .ok (.halted .version) => do
    IO.println CommandLine.versionText
    return 0
  | .ok (.halted .misuse) => do
    IO.eprintln Program.usage
    return 2
  | .ok (.finished report) => do
    Program.display report.screen
    Program.writeChanges before report.tree
    return report.code.toUInt32
