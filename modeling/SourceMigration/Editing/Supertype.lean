import SourceMigration.Editing.Queue
import SourceMigration.Editing.Template
import SourceMigration.Text.Blank
import SourceMigration.Text.Quoted

/-!
# SourceMigration — gates, matches and new supertypes

Whether a unit mentions a type at all, whether a class extends it directly, and the exchange
of the supertype of a class for one made from a template, which brings companion passes along.
A match needs an attributed supertype: a name that denotes nothing never matches.
-/

namespace SourceMigration

/-! ## The gate -/

namespace Gate

/-- Whether a node mentions a type: by importing or denoting it, or by calling one of its methods. -/
def mentions (t : TypeName) (n : Node) : Bool :=
  match n with
  | .branch .importDeclaration _ => Import.isSingle n && Import.qualifiedName n == t.text
  | .branch (.name denoted) _ => denoted == some t
  | .branch (.call m) _ => m.any (·.declaring == t)
  | _ => false

/-- Whether a unit mentions a type anywhere. -/
def applies (t : TypeName) (unit : Node) : Bool := unit.walk.any (mentions t)

/-- The gate of a type in messages. -/
def describe (t : TypeName) : String := "UsesType(" ++ Text.quoted t.text ++ ")"

end Gate

/-! ## Classes that extend a type -/

namespace Supertype

/-- The supertype clause of a class. -/
def clause? (decl : Node) : Option Node := decl.field? .superclass

/-- The type that a class extends, if it is known. -/
def denoted? (decl : Node) : Option TypeName :=
  ((clause? decl).bind (·.field? .supertype)).bind Node.denoted?

/-- The supertype clause of a class that directly extends `t`. -/
def match? (t : TypeName) (decl : Node) : Option Node :=
  if denoted? decl = some t then clause? decl else none

end Supertype

/-! ## Exchanging supertypes -/

/-- How the supertype of a class is exchanged. -/
structure SupertypeChange where
  /-- The text of the new supertype. -/
  template : String
  /-- The types that the names of the template stand for. -/
  types : List TypeName
  /-- The passes that the new supertype asks for. -/
  companions : List Pass
  deriving Repr, Inhabited

/-- What stops an edit under way. -/
inductive EditFault where
  | template (why : TemplateFault)
  | queue (why : QueueFault)
  deriving DecidableEq, Repr

/-- The wording of a fault. -/
def EditFault.message : EditFault → String
  | .template why => why.message
  | .queue why => why.message

/-- What an edit under way works on besides the tree. -/
structure Workshop where
  queue : Queue := {}
  journal : Journal := {}
  deriving Inhabited

/-- Edits that may stop; what was queued and recorded before stays. -/
abbrev EditM := ExceptT EditFault (StateM Workshop)

namespace SupertypeChange

/-- Schedules passes in order and records those that were not waiting already. -/
def schedule : List Pass → EditM Unit
  | [] => pure ()
  | p :: ps => do
    let w ← get
    match w.queue.schedule p with
    | .error why => throw (.queue why)
    | .ok (queue, added) =>
      let journal := if added then w.journal.log (·.scheduled p.describe) else w.journal
      set ({ queue, journal } : Workshop)
      schedule ps

/-- Exchanges the supertype of a class. Nothing is scheduled when the template fails. -/
def apply [TreeSitter] (c : SupertypeChange) (decl clause : Node) : EditM Node := do
  -- The template comes first, for a fault in it must leave the queue alone.
  let old := (clause.field? .supertype).getD clause
  match Template.instantiate c.template c.types with
  | .error why => throw (.template why)
  | .ok tree =>
    let new := tree.withLeading old.leading
    schedule c.companions
    modify fun w =>
      { w with journal := w.journal.log (·.mutation ("ExtendsClause of " ++ decl.declaredName)
          (Text.strip old.text) (Text.strip new.text)) }
    pure (decl.setField .superclass (clause.setField .supertype new))

end SupertypeChange

end SourceMigration
