import SourceMigration.Files.Tree
import SourceMigration.Text.Wildcard

/-!
# SourceMigration — patterns for paths

A pattern selects paths below a directory, name by name. A name is given itself or by wildcards,
which never reach across a slash, and `**` stands for any directories, also for none. A pattern
that ends in a slash selects directories only.
-/

namespace SourceMigration

/-- One part of a pattern for paths. -/
inductive GlobPart where
  | name (s : String)
  | wildcard (w : Wildcard)
  | anyDirectories
  deriving DecidableEq, Repr

/-- A pattern for paths. -/
structure Glob where
  parts : List GlobPart
  directoriesOnly : Bool
  deriving DecidableEq, Repr

/-- Why a text is no pattern for paths. -/
inductive GlobFault where
  | empty
  | absolute
  /-- Two stars stand for directories only on their own. -/
  | mixedStars
  /-- The text has no part, and ends in a slash or not. -/
  | noParts (directoriesOnly : Bool)
  deriving DecidableEq, Repr

/-- The wording of a fault. -/
def GlobFault.message : GlobFault → String
  | .empty => "Unacceptable pattern: ''"
  | .absolute => "Non-relative patterns are unsupported"
  | .mixedStars => "Invalid pattern: '**' can only be an entire path component"
  | .noParts _ => "Pattern without a path component"

namespace Glob

/-- Whether two stars stand side by side in a name. -/
def hasTwoStars (cs : List Char) : Bool :=
  (cs.zip (cs.drop 1)).any fun (a, b) => a == '*' && b == '*'

/-- Reads one part of a pattern. -/
def partOf (s : String) : Except GlobFault GlobPart :=
  let cs := s.toList
  if cs = ['*', '*'] then .ok .anyDirectories
  else if hasTwoStars cs then .error .mixedStars
  else if cs.any fun c => c == '*' || c == '?' || c == '[' then .ok (.wildcard (Wildcard.ofText s))
  else .ok (.name s)

/-- Reads a pattern. -/
def ofText (s : String) : Except GlobFault Glob := do
  let p := FilePath.ofText s
  let directoriesOnly := s.toList.getLast? == some '/'
  if s.isEmpty then throw .empty
  else if !p.root.isEmpty then throw .absolute
  else
    let parts ← p.names.mapM partOf
    if parts.isEmpty then throw (.noParts directoriesOnly) else pure ⟨parts, directoriesOnly⟩

/-- Whether a path can stand for the last part that was read, given what is still to come. -/
def admits (t : FileTree) (g : Glob) (rest : List GlobPart) (p : FilePath) : Bool :=
  -- On the way to the last part only directories lead on.
  if rest.isEmpty && !g.directoriesOnly then t.exists? p else t.isDirectory p

/-- The paths that parts of a pattern select below a directory. -/
def selectParts (t : FileTree) (g : Glob) : List GlobPart → FilePath → List FilePath
  | [], here => [here]
  | .name s :: rest, here =>
    if admits t g rest (here.child s) then selectParts t g rest (here.child s) else []
  | .wildcard w :: rest, here =>
    let found := ((t.node? here).map FileNode.entries).getD []
    found.flatMap fun (name, _) =>
      if w.accepts name && admits t g rest (here.child name) then
        selectParts t g rest (here.child name)
      else []
  | .anyDirectories :: rest, here =>
    let below := ((t.node? here).map (FileNode.directories here.names)).getD []
    -- Several numbers of directories may lead to one path.
    (below.flatMap fun names => selectParts t g rest { here with names }).eraseDups

/-- The paths that a pattern selects below a directory. -/
def select (t : FileTree) (g : Glob) (root : FilePath) : List FilePath :=
  if t.isDirectory root then selectParts t g g.parts root else []

end Glob

end SourceMigration
