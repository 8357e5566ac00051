import SourceMigration.Typing.Scope

/-!
# SourceMigration — receivers of calls

The static type of the expression on which a method is called, as far as it can be told
from the elements before the call, and the number of arguments, from the elements after it.
A call without a receiver is made on the enclosing class. What cannot be told makes no
guess: the call stays without a method.
-/

namespace SourceMigration

/-- What surrounds an element: the classes and the variables of the methods around it, the
innermost first. -/
structure Surroundings where
  scope : Scope
  classes : List TypeName := []
  locals : List (List (String × TypeName)) := []
  deriving Inhabited

namespace Surroundings

/-- The type of a variable: a variable of an enclosing method, else a field of an enclosing class. -/
def variableType? (s : Surroundings) (name : String) : Option TypeName :=
  s.locals.findSome? (Variables.typeOf? · name) <|>
    s.classes.findSome? (s.scope.fieldType? · name)

/-- The elements before the parenthesis that matches one that closes, going back from it. -/
def beforeOpening? (depth : Nat) : List Node → Option (List Node)
  | [] => none
  | e :: before =>
    if e.isToken ")" then beforeOpening? (depth + 1) before
    else if e.isToken "(" then
      -- Going back, a list is entered at its end and left at its beginning.
      if depth = 1 then some before else beforeOpening? (depth - 1) before
    else beforeOpening? depth before

/-- The static type of the expression that ends with the first of these elements, which are
listed backwards. -/
def expressionType? (s : Surroundings) : List Node → Option TypeName
  | [] => none
  | .branch (.name (some t)) _ :: _ => some t
  | .branch (.name none) cs :: rest =>
    match (Node.branch (.name none) cs).simpleNameOf?, rest with
    | none, _ => none
    -- A member of the expression before the point, or else a variable.
    | some name, dot :: e :: before =>
      if dot.isToken "." then
        (s.expressionType? (e :: before)).bind (s.scope.fieldType? · name)
      else s.variableType? name
    | some name, _ => s.variableType? name
  | .branch .parameterized cs :: _ =>
    match (Node.branch .parameterized cs).field? .base with
    | some (.branch (.name t) _) => t
    | _ => none
  | .branch _ _ :: _ => none
  | .token t :: before =>
    if t.spells "this" then s.classes.head?
    else if t.spells "super" then
      (s.classes.head?.bind s.scope.class?).bind ClassInfo.extends?
    else if t.spells ")" then
      -- The result of a call: its name stands before the list of arguments.
      match beforeOpening? 1 before with
      | some (.branch (.call (some m)) _ :: _) => m.returns
      | _ => none
    else none

/-- The type on which a method is called after these elements, which are listed backwards. -/
def receiverType? (s : Surroundings) : List Node → Option TypeName
  | dot :: before =>
    if dot.isToken "." then s.expressionType? before else s.classes.head?
  | [] => s.classes.head?

/-- The number of arguments in the list that follows the name of a call. -/
def arityFrom (depth commas : Nat) (found : Bool) : List Node → Nat
  | [] => if found then commas + 1 else 0
  | e :: rest =>
    if e.isToken "(" then arityFrom (depth + 1) commas (found || depth != 0) rest
    else if e.isToken ")" then
      if depth ≤ 1 then if found then commas + 1 else 0
      else arityFrom (depth - 1) commas true rest
    else if depth = 1 ∧ e.isToken "," then arityFrom depth (commas + 1) found rest
    else arityFrom depth commas (found || depth != 0) rest

/-- The number of arguments in the list that follows the name of a call. -/
def arity (after : List Node) : Nat := arityFrom 0 0 false after

/-- What a call denotes, given the elements before it, backwards, and those after it. -/
def calledMethod? (s : Surroundings) (name : String) (owner : TypeName) (after : List Node) :
    Option MethodType :=
  match s.scope.method? owner name with
  | some (declaring, returns) => some ⟨declaring, name, arity after, returns⟩
  | none =>
    -- A class of the unit would show the method; of another nothing may be known.
    if (s.scope.class? owner).isSome then none
    else some ⟨owner, name, arity after, none⟩

end Surroundings

end SourceMigration
