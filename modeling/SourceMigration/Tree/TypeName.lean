import SourceMigration.Text.Dotted

/-!
# SourceMigration — type names and method identities

What the attribution of a unit attaches to its names: the full name of a type, and for
the name of a call the method it was found to denote.
-/

namespace SourceMigration

/-- A type, identified by its full dotted name. -/
structure TypeName where
  text : String
  deriving DecidableEq, Repr, Inhabited

namespace TypeName

/-- The last part of the full name. -/
def simple (t : TypeName) : String := Text.lastPart t.text

/-- All before the last part; empty for a name without a dot. -/
def package (t : TypeName) : String := Text.beforeLastDot t.text

/-- The type called `name` in the package or type `owner`; an empty owner adds nothing. -/
def member (owner : String) (name : String) : TypeName :=
  if owner.isEmpty then ⟨name⟩ else ⟨owner ++ "." ++ name⟩

end TypeName

/-- The method a call was found to denote. -/
structure MethodType where
  declaring : TypeName
  name : String
  /-- The number of arguments at the call. -/
  arity : Nat
  returns : Option TypeName := none
  deriving DecidableEq, Repr, Inhabited

end SourceMigration
