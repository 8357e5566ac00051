import SourceMigration.Typing.Receiver

/-!
# SourceMigration — attribution

Attaching to the names of a unit the types they denote, and to the names of calls the
methods. Attribution works upwards from the leaves. It adds nothing but what names denote,
with one exception: a dotted name directly in a statement that denotes no type as a whole
is divided after its longest part that does.

Names of packages and imports are left alone, except that a single-type import is given
the type it names. Names and calls that are attributed already keep what they have.
-/

namespace SourceMigration

/-- The outcome of attributing part of a tree. -/
structure Attributed (α : Type) where
  value : α
  /-- Whether anything was built anew. -/
  changed : Bool
  /-- The names of the calls whose receiver is unknown, in order. -/
  unresolved : List String := []

namespace Attribution

/-- The variables of a method: its parameters, and all that statements in its body declare. -/
def methodVariables (s : Scope) (method : Node) : List (String × TypeName) :=
  Variables.declared s.resolve (method.field .parameters) ++
    (method.field .body).flatMap fun body => body.walk.flatMap fun n =>
      match n with
      | .branch .statement _ => Variables.declared s.resolve (n.field .elements)
      | _ => []

/-- The surroundings within a node. -/
def enter (s : Surroundings) (n : Node) : Surroundings :=
  match n with
  | .branch .typeDeclaration _ =>
    let owner := (s.classes.head?.map TypeName.text).getD s.scope.package
    { s with classes := TypeName.member owner n.declaredName :: s.classes }
  -- A method sees the variables of the methods around it too.
  | .branch .method _ => { s with locals := methodVariables s.scope n :: s.locals }
  | _ => s

/-- Divides a dotted name after its longest proper part that denotes a type: `count` parts, or
fewer. -/
def divide? (s : Scope) (cs : List (Field × Node)) (parts : List String) : Nat → Option (List Node)
  | 0 => none
  | count + 1 =>
    match s.resolveParts (parts.take (count + 1)) with
    | none => divide? s cs parts count
    | some t =>
      -- Between each two of the parts stands a point.
      let boundary := 2 * count + 1
      match cs.drop boundary with
      | [] => none
      | dot :: rest =>
        some [.branch (.name (some t)) (cs.take boundary), dot.2, .branch (.name none) rest]

/-- Attributes a name that denotes nothing yet. -/
def ofName (s : Scope) (inStatement : Bool) (cs : List (Field × Node)) :
    Attributed (List Node) :=
  let n : Node := .branch (.name none) cs
  let parts := n.nameParts
  match s.resolveParts parts with
  | some t => ⟨[.branch (.name (some t)) cs], true, []⟩
  | none =>
    if inStatement && parts.length > 1 then
      match divide? s cs parts (parts.length - 1) with
      | some ns => ⟨ns, true, []⟩
      | none => ⟨[n], false, []⟩
    else ⟨[n], false, []⟩

/-- Gives the name of a single-type import the type it names. -/
def ofImport (imp : Node) : Attributed (List Node) :=
  if Import.isSingle imp then
    match imp.field? .name with
    | some (.branch (.name _) cs) =>
      let t : TypeName := ⟨Import.qualifiedName imp⟩
      ⟨[imp.setField .name (.branch (.name (some t)) cs)], true, []⟩
    | _ => ⟨[imp], false, []⟩
  else ⟨[imp], false, []⟩

/-- Attributes the calls among the elements of a statement, from left to right; `before` holds
the elements on the left, backwards. -/
def ofCalls (s : Surroundings) (before : List Node) :
    List (Field × Node) → Attributed (List (Field × Node))
  | [] => ⟨[], false, []⟩
  | (f, e) :: rest =>
    let continueWith (e : Node) (changed : Bool) (unresolved : List String) :=
      let later := ofCalls s (e :: before) rest
      ⟨(f, e) :: later.value, changed || later.changed, unresolved ++ later.unresolved⟩
    match e with
    | .branch (.call none) cs =>
      let name := ((e.tokenAt? .callee).map Token.text).getD ""
      match s.receiverType? before with
      -- Without a known receiver the call stays as it is, and is remarked on.
      | none => continueWith e false [name]
      | some owner =>
        match s.calledMethod? name owner (rest.map Prod.snd) with
        | some m => continueWith (.branch (.call (some m)) cs) true []
        | none => continueWith e false []
    | _ => continueWith e false []

mutual

/-- Attributes a node, which may become several where it stands directly in a statement. -/
def ofNode (s : Surroundings) (inStatement : Bool) : Node → Attributed (List Node)
  | .token t => ⟨[.token t], false, []⟩
  | .branch .packageDeclaration cs => ⟨[.branch .packageDeclaration cs], false, []⟩
  | .branch .importDeclaration cs => ofImport (.branch .importDeclaration cs)
  | .branch (.name none) cs => ofName s.scope inStatement cs
  | .branch .statement cs =>
    -- Names first, for the receivers of calls are told by the names before them.
    let inner := ofChildren s true cs
    let calls := ofCalls s [] inner.value
    ⟨[.branch .statement calls.value], inner.changed || calls.changed,
      inner.unresolved ++ calls.unresolved⟩
  | .branch k cs =>
    let inner := ofChildren (enter s (.branch k cs)) false cs
    ⟨[.branch k inner.value], inner.changed, inner.unresolved⟩

/-- Attributes each child of a node. -/
def ofChildren (s : Surroundings) (inStatement : Bool) :
    List (Field × Node) → Attributed (List (Field × Node))
  | [] => ⟨[], false, []⟩
  | (f, n) :: rest =>
    let first := ofNode s inStatement n
    let later := ofChildren s inStatement rest
    ⟨first.value.map (fun n => (f, n)) ++ later.value, first.changed || later.changed,
      first.unresolved ++ later.unresolved⟩

end

/-- Attributes a whole unit. -/
def ofUnit (classpath : Classpath) (unit : Node) : Attributed Node :=
  let result := ofNode { scope := Scope.ofUnit unit classpath } false unit
  ⟨result.value.headD unit, result.changed, result.unresolved⟩

end Attribution

end SourceMigration
