import SourceMigration.Journal
import SourceMigration.Text.Blank
import SourceMigration.Tree.Label
import SourceMigration.Typing.Scope

/-!
# SourceMigration — the member table

What becomes of the direct methods of a class body, by their names:

* `drop`        — a method named in `remove`, or in `removeIfEmpty` with a body without statements;
* `rename new`  — another method for which `rename` has a new name;
* `keep`        — any other method, and every field, initializer and nested type.

A renamed method keeps all but the spelling of its name, and a dropped one takes its leading
comments along. When members before the first survivor are dropped, the survivor takes over
the blanks before the first of them.
-/

namespace SourceMigration

/-- Which methods are dropped and which renamed. -/
structure MemberTable where
  remove : List String := ["requiresLayout"]
  rename : List (String × String) := [("close", "stop")]
  removeIfEmpty : List String := ["close"]
  deriving DecidableEq, Repr, Inhabited

/-- What becomes of a member. -/
inductive MemberDecision where
  | keep
  | drop
  | rename (new : String)
  deriving DecidableEq, Repr

namespace MemberTable

/-- Whether a method has a body without statements. -/
def hasEmptyBody (method : Node) : Bool :=
  match method.field? .body with
  | some body => (body.field .statements).isEmpty
  | none => false

/-- What becomes of a member. -/
def decide (table : MemberTable) (member : Node) : MemberDecision :=
  match member with
  | .branch .method _ =>
    let name := member.declaredName
    if table.remove.contains name then .drop
    else if table.removeIfEmpty.contains name && hasEmptyBody member then .drop
    else
      match table.rename.lookup name with
      | some new => .rename new
      | none => .keep
  | _ => .keep

/-- The members that survive, the first of them still with its own blanks, and the trace of
what was dropped or renamed. `inherited` holds the blanks before the first dropped member as
long as none has survived. -/
def survivors (table : MemberTable) (inherited : Option String) (kept : List Node) :
    List Node → Trace → List Node × Trace
  | [], trace => (kept, trace)
  | m :: ms, trace =>
    let keep (survivor : Node) (trace : Trace) : List Node × Trace :=
      let survivor :=
        match kept, inherited with
        | [], some blanks => survivor.withLeading (blanks ++ Text.dropBlank survivor.leading)
        | _, _ => survivor
      survivors table inherited (kept ++ [survivor]) ms trace
    match table.decide m with
    | .keep => keep m trace
    | .rename new =>
      keep ((m.relabelled? new).getD m) (trace.mutation "MethodDeclaration" m.declaredName new)
    | .drop =>
      -- Only the first of the members dropped at the front hands on its blanks.
      let inherited := if kept.isEmpty then inherited <|> some (Text.leadingBlank m.leading)
        else inherited
      survivors table inherited kept ms
        (trace.mutation "MethodDeclaration" m.declaredName "<removed>")

/-- The class body after the decisions on its members, and whether any of them was not to keep it. -/
def apply (table : MemberTable) (body : Node) (trace : Trace) : Node × Bool × Trace :=
  let members := body.field .members
  -- Nothing to do: the body is the very same.
  if members.all fun m => table.decide m == .keep then (body, false, trace)
  else
    let (kept, trace) := survivors table none [] members trace
    let before := body.children.filter fun c => c.1 = .opening
    let after := body.children.filter fun c => c.1 = .closing
    (.branch .classBody (before ++ kept.map (fun n => (.members, n)) ++ after), true, trace)

end MemberTable

end SourceMigration
