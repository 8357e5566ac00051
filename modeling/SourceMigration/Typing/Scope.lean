import SourceMigration.Text.LetterCase
import SourceMigration.Typing.KnownTypes
import SourceMigration.Typing.Variables

/-!
# SourceMigration — the scope of a unit

What the names of a unit can mean: the types it declares, its imports, its package and the
known types. A simple name is looked for among the types of the unit, the single-type
imports, the unit's own package, the packages imported on demand and the language's own
package, in this order. What none of them knows stays without a meaning.

Fields and methods of the classes of a unit are recorded with their types, so that a member
can be found by climbing from a class to its supertypes, first within the unit and then
among the known types.
-/

namespace SourceMigration

/-- What a class of the unit declares. -/
structure ClassInfo where
  extends? : Option TypeName
  fields : List (String × TypeName)
  methods : List (String × Option TypeName)
  deriving Repr, Inhabited

/-- The tables that give names their meaning. -/
structure Scope where
  classpath : Classpath
  package : String
  /-- The types of the unit under their simple names; the first of a name counts. -/
  declared : List (String × TypeName)
  /-- The single-type imports under their simple names; the first of a name counts. -/
  explicit : List (String × TypeName)
  /-- The packages imported on demand. -/
  wildcards : List String
  /-- The classes of the unit; the last of a name counts. -/
  classes : List (TypeName × ClassInfo)
  deriving Inhabited

/-- Lower-case package names followed by a name in camel case. -/
def looksQualified (parts : List String) : Bool :=
  match parts.getLast? with
  | none => false
  | some last =>
    3 ≤ parts.length && parts.dropLast.all (fun p => p.toList.head?.any Text.isLowercase) &&
      last.toList.head?.any Text.isUppercase && !Text.isAllUppercase last

namespace Unit

/-- The name of the package of a unit, empty if it has none. -/
def packageName (unit : Node) : String :=
  (((unit.field? .package).bind (·.field? .name)).map Node.dottedName).getD ""

end Unit

namespace Import

/-- The dotted name that an import names. -/
def qualifiedName (imp : Node) : String := ((imp.field? .name).map Node.dottedName).getD ""

/-- The last part of that name. -/
def simpleName (imp : Node) : String :=
  ((imp.field? .name).bind (·.nameParts.getLast?)).getD ""

/-- An import of static members. -/
def isStatic (imp : Node) : Bool := (imp.field? .staticWord).isSome

/-- An import on demand. -/
def isWildcard (imp : Node) : Bool := (imp.field? .wildcard).isSome

/-- An import of one type. -/
def isSingle (imp : Node) : Bool := !isStatic imp && !isWildcard imp

end Import

/-- The simple name of a declaration. -/
def Node.declaredName (n : Node) : String := ((n.tokenAt? .name).map Token.text).getD ""

/-- The members of a type declaration. -/
def Node.members (n : Node) : List Node := ((n.field? .body).map (·.field .members)).getD []

namespace Scope

mutual

/-- The type declarations among members and directly within them, each with its full name. -/
def declarations (owner : String) : Node → List (TypeName × Node)
  | .branch .typeDeclaration cs =>
    let full := TypeName.member owner (Node.branch .typeDeclaration cs).declaredName
    (full, .branch .typeDeclaration cs) :: declarationsInBody full.text cs
  | _ => []

/-- The same for the members in the body of a type. -/
def declarationsInBody (owner : String) : List (Field × Node) → List (TypeName × Node)
  | [] => []
  | (.body, .branch _ ms) :: cs => declarationsAmong owner ms ++ declarationsInBody owner cs
  | _ :: cs => declarationsInBody owner cs

/-- The same for a list of members. -/
def declarationsAmong (owner : String) : List (Field × Node) → List (TypeName × Node)
  | [] => []
  | (_, n) :: cs => declarations owner n ++ declarationsAmong owner cs

end

/-- Whether a type is declared in the unit or known. -/
def knows (s : Scope) (t : TypeName) : Bool :=
  s.classes.any (·.1 == t) || s.classpath.knows t

/-- The meaning of a simple name. -/
def resolveSimple (s : Scope) (name : String) : Option TypeName :=
  -- A type of the unit hides an import, which hides the packages.
  s.declared.lookup name <|>
    s.explicit.lookup name <|>
    ((TypeName.member s.package name :: s.wildcards.map (fun p => ⟨p ++ "." ++ name⟩)) ++
      [TypeName.member languagePackage name]).find? s.classpath.knows

/-- The meaning of a name of several parts: a type of that full name, a member of what its first
part means, or the name itself where it looks like a full name. -/
def resolveParts (s : Scope) (parts : List String) : Option TypeName :=
  match parts with
  | [] => none
  | [name] => s.resolveSimple name
  | head :: rest =>
    let full : TypeName := ⟨Text.joinDots parts⟩
    if s.knows full then some full
    else
      -- A nested type, named from the outer type that the first part means.
      let inner := (s.resolveSimple head).map fun t => TypeName.mk (Text.joinDots (t.text :: rest))
      match inner.filter s.knows with
      | some t => some t
      | none => if looksQualified parts then some full else none

/-- The meaning of a name. -/
def resolve (s : Scope) (name : Node) : Option TypeName := s.resolveParts name.nameParts

/-- The type that a method returns: the type at the end of what stands before its name. -/
def returnType (s : Scope) (method : Node) : Option TypeName :=
  ((method.field .modifiers).getLast?.bind Node.typeHead?).bind s.resolve

/-- What a class declares, with the types that the scope finds. -/
def describe (s : Scope) (decl : Node) : ClassInfo :=
  let supertype := ((decl.field? .superclass).bind (·.field? .supertype)).bind Node.typeHead?
  { extends? := supertype.bind s.resolve
    fields := decl.members.flatMap fun m =>
      match m with
      | .branch .statement _ => Variables.declared s.resolve (m.field .elements)
      | _ => []
    methods := decl.members.filterMap fun m =>
      match m with
      | .branch .method _ => some (m.declaredName, s.returnType m)
      | _ => none }

/-- The first entry of each key. -/
def firstOfEach (entries : List (String × TypeName)) : List (String × TypeName) :=
  entries.foldl (fun kept e => if kept.any (·.1 == e.1) then kept else kept ++ [e]) []

/-- The scope of a unit. -/
def ofUnit (unit : Node) (classpath : Classpath) : Scope :=
  let package := Unit.packageName unit
  let imports := (unit.field .imports).filter fun i => !Import.isStatic i
  -- Supertypes and members are looked up only once all names are in place.
  let found := declarationsAmong package ((unit.field .types).map fun n => (Field.types, n))
  let names : Scope :=
    { classpath, package
      declared := firstOfEach (found.map fun (t, decl) => (decl.declaredName, t))
      explicit := firstOfEach ((imports.filter Import.isSingle).map fun i =>
        (Import.simpleName i, ⟨Import.qualifiedName i⟩))
      wildcards := (imports.filter Import.isWildcard).map Import.qualifiedName
      classes := found.map fun (t, _) => (t, ⟨none, [], []⟩) }
  { names with classes := found.map fun (t, decl) => (t, names.describe decl) }

/-! ## Members -/

/-- What the unit says about one of its classes. -/
def class? (s : Scope) (t : TypeName) : Option ClassInfo := s.classes.reverse.lookup t

/-- Looks for a member from a class upwards: `inUnit` asks a class of the unit, and `beyond` is
asked once the way leads out of the unit or back to a class seen before. -/
def climb {α : Type} (s : Scope) (inUnit : TypeName → ClassInfo → Option α)
    (beyond : TypeName → Option α) : Nat → List TypeName → TypeName → Option α
  | 0, _, t => beyond t
  | fuel + 1, seen, t =>
    -- A cycle within the unit is left where it closes.
    if seen.contains t then beyond t
    else
      match s.class? t with
      | none => beyond t
      | some info =>
        match inUnit t info with
        | some a => some a
        | none =>
          match info.extends? with
          | none => none
          | some u => s.climb inUnit beyond fuel (t :: seen) u

/-- The type of a field of a type or of the nearest type above it that has one of that name. -/
def fieldType? (s : Scope) (owner : TypeName) (field : String) : Option TypeName :=
  s.climb (fun _ info => Variables.typeOf? info.fields field) (s.classpath.fieldType? · field)
    (s.classes.length + 1) [] owner

/-- The type that declares a method visible on a type, with what the method returns. -/
def method? (s : Scope) (owner : TypeName) (method : String) :
    Option (TypeName × Option TypeName) :=
  s.climb (fun t info => (info.methods.reverse.lookup method).map fun r => (t, r))
    (s.classpath.method? · method) (s.classes.length + 1) [] owner

end Scope

end SourceMigration
