/-!
# SourceMigration — file paths

A path is a list of names, possibly from the root. Empty names and single dots between slashes
vanish when a path is read; two dots stay, for they mean something only in a tree of files.
-/

namespace SourceMigration

/-- A path to a file or a directory. -/
structure FilePath where
  /-- The slashes at the front, empty for a path from the working directory. -/
  root : String := ""
  names : List String := []
  deriving DecidableEq, Repr, Inhabited

namespace FilePath

/-- The parts of a text between slashes. -/
def splitSlashes : List Char → List (List Char)
  | [] => [[]]
  | c :: cs =>
    if c = '/' then [] :: splitSlashes cs
    else
      match splitSlashes cs with
      | [] => [[c]]
      | p :: ps => (c :: p) :: ps

/-- Whether a part is a name, and not left out. -/
def isName (part : List Char) : Bool := !part.isEmpty && part != ['.']

/-- The slashes that a path begins with: one, or exactly two. -/
def rootOf : List Char → String
  | '/' :: '/' :: '/' :: _ => "/"
  | '/' :: '/' :: _ => "//"
  | '/' :: _ => "/"
  | _ => ""

/-- Reads a path. -/
def ofText (s : String) : FilePath :=
  ⟨rootOf s.toList, ((splitSlashes s.toList).filter isName).map String.ofList⟩

/-- The text of a path; the working directory is a single dot. -/
def text (p : FilePath) : String :=
  if p.root.isEmpty && p.names.isEmpty then "." else p.root ++ "/".intercalate p.names

/-- The directory that holds what the path leads to; a path without names is its own. -/
def parent (p : FilePath) : FilePath := { p with names := p.names.dropLast }

/-- The path that leads on from another; one from the root leads on from nowhere. -/
def join (p q : FilePath) : FilePath := if q.root.isEmpty then ⟨p.root, p.names ++ q.names⟩ else q

/-- The path to something in a directory. -/
def child (p : FilePath) (name : String) : FilePath := { p with names := p.names ++ [name] }

/-- The path as seen from a directory that it begins with. -/
def relativeTo (p base : FilePath) : FilePath := ⟨"", p.names.drop base.names.length⟩

/-- The order of paths: name by name. -/
def precedes (p q : FilePath) : Bool := p.root :: p.names < q.root :: q.names

/-- The names that lead to a path from the working directory when two dots go back one step; none
for a path that leaves the working directory. -/
def settled? (p : FilePath) : Option (List String) :=
  if p.root.isEmpty then
    p.names.foldl
      (fun names? name =>
        names?.bind fun names =>
          if name = ".." then if names.isEmpty then none else some names.dropLast
          else some (names ++ [name]))
      (some [])
  else none

@[simp] theorem names_child (p : FilePath) (name : String) :
    (p.child name).names = p.names ++ [name] := rfl

end FilePath

end SourceMigration
