import SourceMigration.Text.Blank
import SourceMigration.Tree.Build
import SourceMigration.Typing.Scope

/-!
# SourceMigration — adding and removing imports

Single-type imports come and go with the references to their types. An import is added only
for a type that a simple name of the unit denotes, and removed only when no simple name
denotes the type or, not being understood, is spelled like it.

A new import stands before the first that is greater than it, in the order of the full
names, and takes over the trivia of its neighbour; the first blank lines of a removed import
pass to the one that follows it.
-/

namespace SourceMigration

/-- A unit after an attempt to edit its imports. -/
structure ImportEdit where
  unit : Node
  changed : Bool
  remarks : List String := []

namespace Imports

/-- Nothing was done. -/
def unchanged (unit : Node) (remarks : List String := []) : ImportEdit := ⟨unit, false, remarks⟩

/-- Whether trivia hold a comment. -/
def hasComment (trivia : String) : Bool :=
  (trivia.toList.zip (trivia.toList.drop 1)).any fun (a, b) => a == '/' && (b == '/' || b == '*')

/-- The line end that a text uses: with a carriage return if there is one such line end. -/
def lineEnd (text : String) : String :=
  let cs := text.toList
  if (cs.zip (cs.drop 1)).any fun (a, b) => a == '\r' && b == '\n' then "\r\n" else "\n"

/-- The number of line feeds in a text. -/
def lineFeeds (s : String) : Nat := s.toList.count '\n'

/-- Whether a type is still referred to by its simple name: by a name that denotes it, or by one
that denotes nothing and is spelled like it. -/
def isReferenced (unit : Node) (t : TypeName) : Bool :=
  unit.bodyNames.any fun n =>
    match n.nameParts, n.denoted? with
    | [_], some u => u == t
    | [name], none => name == t.simple
    | _, _ => false

/-- Whether a simple name denotes a type. -/
def isDenoted (unit : Node) (t : TypeName) : Bool :=
  unit.bodyNames.any fun n => n.nameParts.length ≤ 1 && n.denoted? == some t

/-- What makes an import of a type superfluous or impossible, if anything does. -/
inductive Cover where
  /-- The type is imported already, alone or with its package. -/
  | imported
  /-- Another type of the same simple name is imported. -/
  | taken (other : String)

/-- How an import covers a type. -/
def cover? (t : TypeName) (imp : Node) : Option Cover :=
  if Import.isStatic imp then none
  else
    let name := Import.qualifiedName imp
    if Import.isWildcard imp then if name = t.package then some .imported else none
    else if Import.simpleName imp = t.simple then
      if name = t.text then some .imported else some (.taken name)
    else none

/-- Puts the import of a type into a list of imports that is not empty. -/
def insertInto (newline : String) (t : TypeName) (imports : List Node) : List Node :=
  let later := fun imp => !Import.isStatic imp && t.text < Import.qualifiedName imp
  -- Static imports keep out of the order; they stand wherever they stood.
  match imports.findIdx? later, imports.reverse.findIdx? (!Import.isStatic ·) with
  | some i, _ =>
    match imports.drop i with
    | next :: rest =>
      -- The comments above the neighbour now stand above the new import.
      imports.take i ++ [Node.importOf t next.leading, next.withLeading newline] ++ rest
    | [] => imports
  -- Greater than all: right after the last import that is not static.
  | none, some back =>
    let i := imports.length - back
    imports.take i ++ [Node.importOf t newline] ++ imports.drop i
  | none, none => imports ++ [Node.importOf t newline]

/-- Adds the import of a type if a simple name denotes the type and nothing covers it. -/
def add (unit : Node) (t : TypeName) : ImportEdit :=
  -- These packages need no import.
  if t.package = languagePackage ∨ t.package = Unit.packageName unit then unchanged unit
  else
    let p := unit.unitParts
    match p.imports.findSome? (cover? t) with
    | some .imported => unchanged unit
    | some (.taken other) =>
      unchanged unit ["Not importing " ++ t.text ++ ": simple name taken by " ++ other]
    | none =>
      if !isDenoted unit t then unchanged unit
      else
        let newline := lineEnd unit.text
        let added : List String := ["Added import " ++ t.text]
        match p.imports, p.package, p.types with
        | _ :: _, _, _ =>
          ⟨UnitParts.toUnit { p with imports := insertInto newline t p.imports }, true, added⟩
        | [], some _, _ =>
          ⟨UnitParts.toUnit { p with imports := [Node.importOf t (newline ++ newline)] }, true, added⟩
        -- The new import is the first thing in the text.
        | [], none, first :: rest =>
          let types := first.withLeading (newline ++ newline) :: rest
          ⟨UnitParts.toUnit { p with imports := [Node.importOf t first.leading], types }, true, added⟩
        | [], none, [] =>
          let imports := p.endMarker.map fun e : Node => Node.importOf t e.leading
          let endMarker := p.endMarker.map (Node.withLeading newline)
          ⟨UnitParts.toUnit { p with imports, endMarker }, true, []⟩

/-- Removes the first single-type import of a type that is no longer referred to. -/
def remove (unit : Node) (t : TypeName) : ImportEdit :=
  let p := unit.unitParts
  match p.imports.findIdx? fun i => Import.isSingle i && Import.qualifiedName i = t.text with
  | none => unchanged unit
  | some i =>
    if isReferenced unit t then unchanged unit
    else
      let spacing := Text.leadingBlank ((p.imports[i]?.map Node.leading).getD "")
      let before := p.imports.take i
      let removed : List String := ["Removed import " ++ t.text]
      match p.imports.drop (i + 1), before, p.package, p.types with
      | next :: rest, _, _, _ =>
        let next :=
          -- The next import keeps a paragraph that the removed one began.
          if !hasComment next.leading && lineFeeds next.leading < lineFeeds spacing then
            next.withLeading spacing
          else next
        ⟨UnitParts.toUnit { p with imports := before ++ next :: rest }, true, removed⟩
      | [], [], none, first :: rest =>
        -- Nothing is left before the first type, so it begins where the import began.
        let first := first.withLeading (spacing ++ Text.dropBlank first.leading)
        ⟨UnitParts.toUnit { p with imports := [], types := first :: rest }, true, removed⟩
      | [], _, _, _ => ⟨UnitParts.toUnit { p with imports := before }, true, removed⟩

end Imports

end SourceMigration
