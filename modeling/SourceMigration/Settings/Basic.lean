import SourceMigration.Recipe.Registry
import SourceMigration.Settings.Value
import SourceMigration.Text.Blank
import SourceMigration.Text.Quoted

/-!
# SourceMigration — settings

What a run is told: the recipe, which files, how many of them at once, how they are encoded, and
which types are known besides. The settings are declared, with their types and defaults, and a library
validates the entries of a table against what is declared. The library itself is no part of this:
`Pydantic` stands for whatever it makes of the entries, and what may be relied on is said where it is
relied on.
-/

namespace SourceMigration

/-- What is wrong with a value: the name under which it is reported, and the wording if there is one of
its own. -/
structure SettingCause where
  title : String
  message? : Option String := none
  deriving DecidableEq, Repr

/-- Where a value is wrong, and how. -/
structure SettingFault where
  setting : String
  /-- The position in a list, if one value of it is wrong. -/
  index : Option Nat
  cause : SettingCause
  deriving DecidableEq, Repr

/-! ## Declared settings -/

/-- The type of a setting with its default and what else is asked of a value. -/
inductive SettingType where
  /-- A text that is checked once it is known to be one. -/
  | text (default : String) (check : String → Except String String)
  | texts (default : List String)
  | whole (default atLeast : Int)

/-- A setting as it is declared. -/
structure SettingDeclaration where
  name : String
  type : SettingType

/-- The value of a setting that was validated. -/
inductive ValidValue where
  | text (s : String)
  | texts (ss : List String)
  | whole (n : Int)
  deriving Inhabited

namespace ValidValue

/-- The text of a setting that is declared as one. -/
def asText : ValidValue → String
  | .text s => s
  | _ => ""

/-- The texts of a setting that is declared as a list of them. -/
def asTexts : ValidValue → List String
  | .texts ss => ss
  | _ => []

/-- The number of a setting that is declared as one. -/
def asWhole : ValidValue → Int
  | .whole n => n
  | _ => 0

end ValidValue

/-- A library that validates entries against declarations. -/
class Pydantic where
  /-- The value of each setting, or what is wrong with the entries. -/
  validate : List SettingDeclaration → List (String × SettingValue) →
    Except (List SettingFault) (String → ValidValue)

/-- What a run is told. -/
structure Settings where
  recipe : String := Appender.recipe.name
  /-- The patterns of the files to migrate. -/
  included : List String := ["**/*.java"]
  /-- The wildcards of the files to leave out. -/
  excluded : List String := []
  /-- How many files are migrated at once. -/
  workers : Nat := 1
  encoding : String := "utf-8"
  /-- Further types that are known. -/
  classpath : List String := []
  deriving DecidableEq, Repr, Inhabited

namespace Settings

/-- The name of a recipe, with blanks around it if wanted. While no recipe is registered, any name will
do. -/
def checkRecipe (g : Registry) (text : String) : Except String String :=
  let name := Text.strip text
  if g.names.isEmpty || g.names.contains name then .ok name
  else .error ("Unknown recipe: '" ++ name ++ "'. Available recipes: " ++ Text.quotedList g.names)

/-- The settings as they are declared. -/
def declarations (g : Registry) : List SettingDeclaration :=
  [⟨"recipe", .text Appender.recipe.name (checkRecipe g)⟩, ⟨"include", .texts ["**/*.java"]⟩,
    ⟨"exclude", .texts []⟩, ⟨"workers", .whole 1 1⟩, ⟨"encoding", .text "utf-8" .ok⟩,
    ⟨"classpath", .texts []⟩]

/-- Settings from the value of each. -/
def ofValues (value : String → ValidValue) : Settings where
  recipe := (value "recipe").asText
  included := (value "include").asTexts
  excluded := (value "exclude").asTexts
  workers := (value "workers").asWhole.toNat
  encoding := (value "encoding").asText
  classpath := (value "classpath").asTexts

/-- Reads settings from the entries of a table. -/
def ofEntries [Pydantic] (g : Registry) (entries : List (String × SettingValue)) :
    Except (List SettingFault) Settings :=
  (Pydantic.validate (declarations g) entries).map ofValues

end Settings

end SourceMigration
