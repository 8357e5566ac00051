import SourceMigration.Files.Encoding
import SourceMigration.Files.Tree
import SourceMigration.Settings.Basic
import SourceMigration.Settings.Toml

/-!
# SourceMigration — loading settings

Settings come from a table of the nearest settings file, looked for from a directory upwards, and
from arguments that override them. Patterns and types given as arguments replace or extend those
of the file. A file that is no document counts as empty; one that is no text does not.
-/

namespace SourceMigration

/-- The name of the file that settings are looked for in. -/
def settingsFileName : String := "pyproject.toml"

/-- The table of all tools in a settings file. -/
def toolsKey : String := "tool"

/-- The table of this tool among them. -/
def ownKey : String := "logshift"

/-- Why what stands in the place of the own table has no entries. -/
inductive NoEntries where
  /-- The value has no parts, or one of them has none, or a key cannot be one. -/
  | kind
  /-- A part that should be a key and a value has another length. -/
  | pair (index length : Nat)
  deriving DecidableEq, Repr

/-- Why settings could not be loaded. -/
inductive LoadFault where
  /-- Settings have wrong values. -/
  | invalid (faults : List SettingFault)
  /-- The settings file is no text. -/
  | undecodable (why : DecodeFault)
  /-- The tools have no table. -/
  | noTools
  /-- What should be the own table has no entries. -/
  | noEntries (why : NoEntries)
  /-- A value that arguments replace or extend has no parts. -/
  | notExtensible
  deriving DecidableEq, Repr

/-- The wording of a fault, if it is one that a user is told. -/
def LoadFault.message? : LoadFault → Option String
  | .invalid _ => some "Invalid logshift configuration"
  | .undecodable why => some why.message
  | .noEntries (.pair index length) =>
    some ("dictionary update sequence element #" ++ toString index ++ " has length " ++
      toString length ++ "; 2 is required")
  | _ => none

/-- Arguments that override settings; a null says nothing. -/
structure Overrides where
  recipe : SettingValue := .null
  included : SettingValue := .null
  excluded : SettingValue := .null
  workers : SettingValue := .null
  encoding : SettingValue := .null
  classpath : SettingValue := .null
  deriving Inhabited

namespace Settings

/-! ## The settings file -/

/-- The settings file in a directory or the nearest above it, by the names that lead there. -/
def nearestFile? (t : FileTree) (directory : List String) : Option FilePath :=
  ((List.range (directory.length + 1)).reverse.map fun n =>
    FilePath.mk "" (directory.take n ++ [settingsFileName])).find? t.isFile

/-- The entry that a pair of values stands for; a key that is no text names no setting. -/
def entryOf (key value : SettingValue) : Except NoEntries Toml.Entries :=
  match key with
  | .text k => .ok [(k, value)]
  | .list _ => .error .kind
  | .table _ => .error .kind
  | _ => .ok []

/-- The entries that a list of pairs stands for. -/
def entriesOfPairs : Nat → List SettingValue → Except NoEntries Toml.Entries
  | _, [] => .ok []
  | i, v :: vs =>
    match v.parts? with
    | none => .error .kind
    | some [key, value] => do
      let front ← entryOf key value
      let rest ← entriesOfPairs (i + 1) vs
      pure (front ++ rest)
    | some parts => .error (.pair i parts.length)

/-- The entries of a value: of a table, or of anything made of pairs. A later pair comes before
an earlier one of the same key. -/
def entriesOf (v : SettingValue) : Except NoEntries Toml.Entries :=
  match v with
  | .table es => .ok es
  | _ =>
    match v.parts? with
    | none => .error .kind
    | some parts => (entriesOfPairs 0 parts).map List.reverse

/-- The own table of a settings file. -/
def ownTable (file : Toml.Entries) : Except LoadFault Toml.Entries :=
  match file.lookup toolsKey with
  | none => .ok []
  | some (.table tools) =>
    match tools.lookup ownKey with
    | none => .ok []
    | some own => (entriesOf own).mapError .noEntries
  | some _ => .error .noTools

/-- The entries that the settings file nearest to a directory gives. -/
def fileEntries (t : FileTree) (directory : FilePath) : Except LoadFault Toml.Entries :=
  match (directory.settled?.bind (nearestFile? t)).bind t.content? with
  | none => .ok []
  | some content =>
    match Encoding.utf8.decode content with
    | .error why => .error (.undecodable why)
    -- A file that is no document counts as empty.
    | .ok text => ownTable ((Toml.ofDocument? text).getD [])

/-! ## Arguments -/

/-- Gives a value to a key. -/
def override (key : String) (v : SettingValue) (es : Toml.Entries) : Toml.Entries := (key, v) :: es

/-- The parts of a value that must have some. -/
def partsOf (v : SettingValue) : Except LoadFault (List SettingValue) :=
  match v.parts? with
  | some parts => .ok parts
  | none => .error .notExtensible

/-- Replaces a value by an argument, unless the argument says nothing. -/
def replaceBy (key : String) (v : SettingValue) (es : Toml.Entries) : Toml.Entries :=
  match v with
  | .null => es
  | v => override key v es

/-- Appends the parts of an argument to those of a value, unless the argument says nothing. -/
def extendBy (key : String) (v : SettingValue) (es : Toml.Entries) :
    Except LoadFault Toml.Entries := do
  if !v.isGiven then pure es
  else
    -- The value in the file must have parts, even where it is no list.
    let old ← partsOf ((es.lookup key).getD (.list []))
    pure (override key (.list (old ++ (← partsOf v))) es)

/-- The entries after the arguments. -/
def withOverrides (o : Overrides) (es : Toml.Entries) : Except LoadFault Toml.Entries := do
  let es := replaceBy "recipe" o.recipe es
  let es ← if o.included.isGiven then do
      pure (override "include" (.list (← partsOf o.included)) es)
    else pure es
  let es ← extendBy "exclude" o.excluded es
  let es := replaceBy "encoding" o.encoding (replaceBy "workers" o.workers es)
  extendBy "classpath" o.classpath es

/-- Loads settings for a directory. -/
def load [Pydantic] (g : Registry) (t : FileTree) (directory : FilePath) (o : Overrides) :
    Except LoadFault Settings := do
  let es ← fileEntries t directory
  let es ← withOverrides o es
  (ofEntries g es).mapError .invalid

end Settings

end SourceMigration
