import SourceMigration.Parsing.Parser
import SourceMigration.Text.Quoted
import SourceMigration.Tree.Build
import SourceMigration.Tree.Revision

/-!
# SourceMigration — type templates

A template is the text of a class type. It is instantiated with the full names of the types
that its names stand for: a simple name stands for the type of that simple name, and a dotted
name for itself. Every name must be bound to a type, and every type must be used.
-/

namespace SourceMigration

/-- Why a template cannot be instantiated. -/
inductive TemplateFault where
  /-- Two different types have the same simple name. -/
  | ambiguous (simple : String) (first second : TypeName)
  /-- The text is no class type. -/
  | invalid (template : String) (why : Parsing.TypeRefusal)
  | unbound (template : String) (names : List String)
  | unused (template : String) (types : List TypeName)
  deriving DecidableEq, Repr

/-- The wording of a fault. -/
def TemplateFault.message : TemplateFault → String
  | .ambiguous simple first second =>
    "Ambiguous bindings for '" ++ simple ++ "': " ++ first.text ++ ", " ++ second.text
  | .invalid template why => "Invalid type template " ++ Text.quoted template ++ ": " ++ why.text
  | .unbound template names =>
    "Unbound names in template " ++ Text.quoted template ++ ": " ++ ", ".intercalate names
  | .unused template types =>
    "Unused bindings for template " ++ Text.quoted template ++ ": " ++
      ", ".intercalate (types.map TypeName.text)

namespace Template

/-- The types a template is instantiated with, each once, or two that clash. -/
def bindings : List TypeName → List TypeName → Except TemplateFault (List TypeName)
  | bound, [] => .ok bound
  | bound, t :: ts =>
    match bound.find? (·.simple == t.simple) with
    | none => bindings (bound ++ [t]) ts
    | some u => if u = t then bindings bound ts else .error (.ambiguous t.simple u t)

/-- The type that a name of a template stands for. -/
def meaning? (bound : List TypeName) (name : Node) : Option TypeName :=
  match name.nameParts with
  | [simple] => bound.find? (·.simple == simple)
  | _ => bound.find? (·.text == name.dottedName)

/-- The name with the type it stands for. -/
def bindName? (bound : List TypeName) (n : Node) : Option Node :=
  match n with
  | .branch (.name _) cs => (meaning? bound n).map fun t => .branch (.name (some t)) cs
  | _ => none

/-- The names of a tree, in order. -/
def namesIn (tree : Node) : List Node :=
  tree.walk.filter fun n =>
    match n with
    | .branch (.name _) _ => true
    | _ => false

/-- The tree of a template in which every name denotes one of the given types. -/
def instantiate [TreeSitter] (template : String) (types : List TypeName) : Except TemplateFault Node := do
  let bound ← bindings [] types
  -- Bindings are checked before the text, and the text before its names.
  match Parsing.parseType (Text.strip template) with
  | .error why => .error (.invalid template why)
  | .ok tree =>
    let names := namesIn tree
    let unbound := names.filter fun n => (meaning? bound n).isNone
    if !unbound.isEmpty then .error (.unbound template (unbound.map Node.dottedName))
    else
      let used := names.filterMap (meaning? bound)
      let unused := bound.filter fun t => !used.contains t
      if !unused.isEmpty then .error (.unused template unused)
      else .ok ((tree.replaceAll (fun _ => false) (bindName? bound)).1.withLeading "")

end Template

end SourceMigration
