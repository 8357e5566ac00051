import SourceMigration.Files.Fault
import SourceMigration.Files.Path

/-!
# SourceMigration — trees of files

The files and directories below a working directory, with the contents of the files. Paths are
followed name by name through directories; two dots lead back to the directory above.
-/

namespace SourceMigration

/-- The contents of a file. -/
abbrev Bytes := List UInt8

/-- A file, or a directory with named entries. -/
inductive FileNode where
  | file (content : Bytes)
  | directory (entries : List (String × FileNode))
  deriving Inhabited

namespace FileNode

/-- The entries of a directory. -/
def entries : FileNode → List (String × FileNode)
  | .file _ => []
  | .directory es => es

/-- Whether a node is a directory. -/
def isDirectory : FileNode → Bool
  | .file _ => false
  | .directory _ => true

/-- The node to which names lead. -/
def lookup : List String → FileNode → Option FileNode
  | [], n => some n
  | name :: names, n => (n.entries.lookup name).bind (lookup names)

/-- Changes the entry of a name, which is added if there is none. -/
def setEntry (name : String) (new : FileNode) : List (String × FileNode) → List (String × FileNode)
  | [] => [(name, new)]
  | (k, n) :: es => if k = name then (k, new) :: es else (k, n) :: setEntry name new es

/-- Puts a node at a place; directories on the way are made where nothing stands. -/
def put (new : FileNode) : List String → FileNode → FileNode
  | [], _ => new
  | name :: names, n =>
    .directory
      (setEntry name (put new names ((n.entries.lookup name).getD (.directory []))) n.entries)

mutual

/-- The directories at and below a node, by the names that lead to them from `above`. -/
def directories (above : List String) : FileNode → List (List String)
  | .file _ => []
  | .directory es => above :: directoriesIn above es

/-- The directories among and below some entries. -/
def directoriesIn (above : List String) : List (String × FileNode) → List (List String)
  | [] => []
  | (name, n) :: es => directories (above ++ [name]) n ++ directoriesIn above es

end

mutual

/-- The files at and below a node, by the names that lead to them from `above`. -/
def files (above : List String) : FileNode → List (List String × Bytes)
  | .file content => [(above, content)]
  | .directory es => filesIn above es

/-- The files among and below some entries. -/
def filesIn (above : List String) : List (String × FileNode) → List (List String × Bytes)
  | [] => []
  | (name, n) :: es => files (above ++ [name]) n ++ filesIn above es

end

theorem lookup_setEntry (name : String) (new : FileNode) (es : List (String × FileNode)) :
    (setEntry name new es).lookup name = some new := by
  induction es with
  | nil => simp [setEntry]
  | cons e es ih =>
    obtain ⟨k, n⟩ := e
    by_cases h : k = name
    · simp [setEntry, h]
    · have : (name == k) = false := by simpa using fun h' => h h'.symm
      simp [setEntry, h, List.lookup_cons, this, ih]

end FileNode

/-- The files and directories below the working directory. -/
structure FileTree where
  top : FileNode := .directory []
  deriving Inhabited

namespace FileTree

/-- Why a path leads nowhere. -/
inductive Impasse where
  | absent
  /-- The path leads through a file. -/
  | throughFile
  deriving DecidableEq, Repr

/-- Follows names from a directory; the result leads there from the top without two dots. -/
def follow (t : FileTree) : List String → List String → Except Impasse (List String)
  | here, [] => .ok here
  | here, name :: names =>
    match t.top.lookup here with
    | some (.directory es) =>
      if name = ".." then
        -- Nothing is known above the working directory.
        if here.isEmpty then .error .absent else t.follow here.dropLast names
      else if (es.lookup name).isSome then t.follow (here ++ [name]) names
      else .error .absent
    | _ => .error .throughFile

/-- The place to which a path leads, from the top. -/
def locate (t : FileTree) (p : FilePath) : Except Impasse (List String) :=
  if p.root.isEmpty then t.follow [] p.names else .error .absent

/-- What a path leads to. -/
def node? (t : FileTree) (p : FilePath) : Option FileNode :=
  (t.locate p).toOption.bind fun here => t.top.lookup here

def exists? (t : FileTree) (p : FilePath) : Bool := (t.node? p).isSome

def isFile (t : FileTree) (p : FilePath) : Bool := (t.node? p).any fun n => !n.isDirectory

def isDirectory (t : FileTree) (p : FilePath) : Bool := (t.node? p).any FileNode.isDirectory

/-- The contents of a file. -/
def content? (t : FileTree) (p : FilePath) : Option Bytes :=
  match t.node? p with
  | some (.file content) => some content
  | _ => none

/-- The files of a tree, each with the path to it. -/
def files (t : FileTree) : List (FilePath × Bytes) :=
  (t.top.files []).map fun (names, content) => (⟨"", names⟩, content)

/-- The files that are new, or whose contents are not what they were before. -/
def changedSince (t before : FileTree) : List (FilePath × Bytes) :=
  t.files.filter fun (p, content) => before.content? p != some content

/-- The fault of a path that leads nowhere. -/
def faultOf (p : FilePath) : Impasse → FileFault
  | .absent => .absent p.text
  | .throughFile => .notDirectory p.text

/-- Reads a file. -/
def read (t : FileTree) (p : FilePath) : Except FileFault Bytes :=
  match t.locate p with
  | .error why => .error (faultOf p why)
  | .ok here =>
    match t.top.lookup here with
    | some (.file content) => .ok content
    | _ => .error (.isDirectory p.text)

/-- The place of a new entry: what the path to its directory leads to, and its name. -/
def placeFor (t : FileTree) (p : FilePath) : Except Impasse (List String) :=
  match p.names.getLast? with
  | none => .error .absent
  | some name =>
    match t.locate p.parent with
    | .error why => .error why
    | .ok here =>
      match t.top.lookup here with
      | some (.directory _) => .ok (here ++ [name])
      | _ => .error .throughFile

/-- Writes a file in a directory that is there. -/
def write (t : FileTree) (p : FilePath) (content : Bytes) : Except FileFault FileTree :=
  -- A directory is not written over, whatever path leads to it.
  if t.isDirectory p then .error (.isDirectory p.text)
  else
    match t.placeFor p with
    | .error why => .error (faultOf p why)
    | .ok place => .ok ⟨FileNode.put (.file content) place t.top⟩

/-- Makes a directory in a directory that is there. -/
def makeDirectory (t : FileTree) (p : FilePath) : Except FileFault FileTree :=
  if t.exists? p then .error (.exists p.text)
  else
    match t.placeFor p with
    | .error why => .error (faultOf p why)
    | .ok place => .ok ⟨FileNode.put (.directory []) place t.top⟩

/-- Makes a directory and those on the way that are missing; one that is there already will do.
Every step up takes a name from the path, so the number of names is fuel enough. -/
def makeDirectoriesFrom : Nat → FileTree → FilePath → Except FileFault FileTree
  | fuel, t, p =>
    match t.makeDirectory p with
    | .ok t => .ok t
    | .error (.absent path) =>
      match fuel with
      | 0 => .error (.absent path)
      | fuel + 1 =>
        match makeDirectoriesFrom fuel t p.parent with
        | .error why => .error why
        -- Two dots in the path may mean that it is there by now.
        | .ok t => if t.isDirectory p then .ok t else t.makeDirectory p
    | .error why => if t.isDirectory p then .ok t else .error why

/-- Makes a directory and those on the way that are missing. -/
def makeDirectories (t : FileTree) (p : FilePath) : Except FileFault FileTree :=
  makeDirectoriesFrom p.names.length t p

end FileTree

end SourceMigration
