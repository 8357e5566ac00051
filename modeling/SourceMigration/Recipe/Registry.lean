import SourceMigration.Recipe.Appender

/-!
# SourceMigration — the registry of recipes

Recipes under their names. A name is registered once; registering it again replaces the recipe.
-/

namespace SourceMigration

/-- The registered recipes. -/
structure Registry where
  recipes : List Recipe := [Appender.recipe]
  deriving Inhabited

namespace Registry

/-- Registers a recipe under its name. -/
def register (g : Registry) (r : Recipe) : Registry :=
  ⟨g.recipes.filter (·.name != r.name) ++ [r]⟩

/-- The names of all recipes, in order. -/
def names (g : Registry) : List String :=
  (g.recipes.map Recipe.name).mergeSort fun a b => !(b < a)

/-- The recipe of a name. -/
def find? (g : Registry) (name : String) : Option Recipe := g.recipes.find? (·.name == name)

/-- What is said of a name under which nothing is registered. -/
def unknown (g : Registry) (name : String) : String :=
  let known := if g.recipes.isEmpty then "none" else ", ".intercalate g.names
  "Unknown recipe '" ++ name ++ "' (available: " ++ known ++ ")"

end Registry

end SourceMigration
