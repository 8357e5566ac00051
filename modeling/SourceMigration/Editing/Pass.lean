import SourceMigration.Editing.Imports
import SourceMigration.Editing.MethodPattern
import SourceMigration.Journal
import SourceMigration.Tree.Label
import SourceMigration.Tree.Revision

/-!
# SourceMigration — deferred passes

Edits of a whole unit that are asked for while it is being traversed and made afterwards: to
rename the calls of a method, to put one type in the place of another, and to add an import or to
remove one. A pass tells whether it built anything anew, and records what it did in the journal.
-/

namespace SourceMigration

/-- An edit of a whole unit. -/
inductive Pass where
  | renameMethod (pattern : MethodPattern) (newName : String)
  | changeType (old new : TypeName)
  | addImport (t : TypeName)
  | removeImport (t : TypeName)
  deriving DecidableEq, Repr

namespace Pass

/-- The name under which a kind of pass is reported. -/
def kindTitle : Pass → String
  | .renameMethod _ _ => "rename-method"
  | .changeType _ _ => "change-type"
  | .addImport _ => "add-import"
  | .removeImport _ => "remove-import"

/-- A pass in one line. -/
def describe (p : Pass) : String :=
  p.kindTitle ++ " " ++
    match p with
    | .renameMethod pattern newName => pattern.source ++ " -> " ++ newName
    | .changeType old new => old.text ++ " -> " ++ new.text
    | .addImport t => t.text
    | .removeImport t => t.text

/-! ## Renaming calls -/

/-- The call with another name, if the pattern selects it. -/
def renameCall? (pattern : MethodPattern) (newName : String) (n : Node) : Option Node :=
  match n with
  | .branch (.call m) _ => if pattern.selects m then n.relabelled? newName else none
  | _ => none

/-- Renames every call that the pattern selects, and counts them. -/
def renameCalls (pattern : MethodPattern) (newName : String) (unit : Node) : Node × Nat :=
  unit.replaceAll (fun _ => false) (renameCall? pattern newName)

/-! ## Changing types -/

/-- The declarations in which types are not changed. -/
def isHeaderKind : NodeKind → Bool
  | .packageDeclaration => true
  | .importDeclaration => true
  | _ => false

/-- The name of the new type for a name of the old one: simple for simple, full for dotted. -/
def changeName? (old new : TypeName) (n : Node) : Option Node :=
  match n with
  | .branch (.name (some t)) _ =>
    if t = old then
      -- A name keeps its style, for no import is needed by a full one.
      let spelling := if n.nameParts.length > 1 then new.text else new.simple
      some (Node.ofDotted spelling n.leading (some new))
    else none
  | _ => none

/-- The call with the new type where its method mentions the old one. -/
def changeMethod? (old new : TypeName) : Node → Option Node
  | .branch (.call (some m)) cs =>
    if m.declaring = old ∨ m.returns = some old then
      let declaring := if m.declaring = old then new else m.declaring
      let returns := if m.returns = some old then some new else m.returns
      some (.branch (.call (some { m with declaring, returns })) cs)
    else none
  | _ => none

/-- Puts one type in the place of another. The first number counts the names, the second also
the calls. -/
def changeTypes (old new : TypeName) (unit : Node) : Node × Nat × Nat :=
  let (unit, names) := unit.replaceAll isHeaderKind (changeName? old new)
  let (unit, calls) := unit.replaceAll isHeaderKind (changeMethod? old new)
  (unit, names, names + calls)

/-! ## Running -/

/-- The text after the name of a replacement that was made so many times. -/
def timesMade (what : String) (count : Nat) : String := what ++ " (x" ++ toString count ++ ")"

/-- Adds an import and records it. -/
def runAdd (t : TypeName) (unit : Node) (j : Journal) : Revised × Journal :=
  let edit := Imports.add unit t
  (⟨edit.unit, edit.changed⟩,
    (j.remark edit.remarks).log (·.importAction "add" t.text edit.changed))

/-- Removes an import and records it. -/
def runRemove (t : TypeName) (unit : Node) (j : Journal) : Revised × Journal :=
  let edit := Imports.remove unit t
  (⟨edit.unit, edit.changed⟩,
    (j.remark edit.remarks).log (·.importAction "remove" t.text edit.changed))

/-- Runs a pass on a unit. -/
def run (p : Pass) (unit : Node) (j : Journal) : Revised × Journal :=
  match p with
  | .renameMethod pattern newName =>
    let (result, count) := renameCalls pattern newName unit
    let j := if count = 0 then j
      else j.log (·.mutation "MethodInvocation" pattern.source (timesMade newName count))
    (⟨result, count != 0⟩, j)
  | .changeType old new =>
    let (result, names, count) := changeTypes old new unit
    let j := if names = 0 then j
      else j.log (·.mutation "TypeReference" old.text (timesMade new.text names))
    -- The old import goes first, for the new type may have the same simple name.
    let (removed, j) := runRemove old result j
    let (added, j) := runAdd new removed.node j
    (⟨added.node, count != 0 || removed.changed || added.changed⟩, j)
  | .addImport t => runAdd t unit j
  | .removeImport t => runRemove t unit j

end Pass

end SourceMigration
