import SourceMigration.Files.Fault
import SourceMigration.Recipe.Basic
import SourceMigration.Typing.Attribution

/-!
# SourceMigration — migrating one source text

From a source text to the migrated text: parsing, attribution, the recipe, printing. A text that
cannot be parsed, or a template that cannot be instantiated, leaves the text as it was, and so
does a unit that nothing applies to.
-/

namespace SourceMigration

/-- Why a text could not be migrated. -/
inductive MigrationFault where
  | parse (why : Refusal)
  | edit (why : EditFault)
  | file (why : FileFault)
  deriving DecidableEq, Repr

/-- The wording of a fault. -/
def MigrationFault.message : MigrationFault → String
  | .parse why => "Parse Error: " ++ why.text
  | .edit why => "Synthesis Error: " ++ why.message
  | .file why => why.title ++ ": " ++ why.message

/-- How a migration ended. -/
inductive MigrationStatus where
  | edited
  | unchanged
  | failed
  deriving DecidableEq, Repr, Inhabited

/-- The name under which a status is reported. -/
def MigrationStatus.title : MigrationStatus → String
  | .edited => "edited"
  | .unchanged => "unchanged"
  | .failed => "failed"

/-- The result of migrating one text. -/
structure MigrationResult where
  path : Option String
  status : MigrationStatus
  /-- The migrated text, or the text as it was. -/
  code : String
  faults : List MigrationFault := []
  trace : Trace := {}
  /-- What was remarked on the way. -/
  remarks : List String := []
  deriving Inhabited

/-- The result of a text that could not be migrated. -/
def MigrationResult.failed (path : Option String) (code : String) (why : MigrationFault)
    (j : Journal) : MigrationResult :=
  let j := (j.log (·.warning why.message)).log Trace.finish
  ⟨path, .failed, code, [why], j.trace, j.remarks⟩

/-- A recipe with the types that are known to attribution. -/
structure Engine where
  recipe : Recipe
  classpath : Classpath
  deriving Inhabited

namespace Engine

/-- Migrates one source text. -/
def run [TreeSitter] (e : Engine) (code : String) (path : Option String := none) : MigrationResult :=
  let j : Journal := {}
  let j := j.log (·.start "Migration Pipeline" e.recipe.name)
  let j := j.log (·.start "Parsing" "Source -> CST")
  match Parsing.parse code with
  | .error why => .failed path code (.parse why) (j.log Trace.finish)
  | .ok unit =>
    let j := j.log Trace.finish
    let j := j.log (·.start "Type Attribution" "ClasspathTypeResolver")
    let attributed := Attribution.ofUnit e.classpath unit
    let unresolved := attributed.unresolved.map ("Unresolved receiver for call to " ++ ·)
    let j := (j.remark unresolved).log Trace.finish
    let (outcome, j) := e.recipe.run attributed.value j
    match outcome with
    | .error why => .failed path code (.edit why) j
    | .ok migrated =>
      -- What was not edited is not even printed.
      if !migrated.changed then
        let j := j.log Trace.finish
        ⟨path, .unchanged, code, [], j.trace, j.remarks⟩
      else
        let j := j.log (·.start "Printing" "CST -> Source")
        let output := migrated.node.text
        let j := (j.log Trace.finish).log Trace.finish
        -- Edits may cancel out; what counts is the text.
        let status := if output = code then .unchanged else .edited
        ⟨path, status, output, [], j.trace, j.remarks⟩

end Engine

end SourceMigration
