/-!
# SourceMigration — concrete syntax trees

What a parser library reports of a text: a tree whose leaves are the signs, words and literals of
the text and whose inner nodes are named for the rules of the grammar. A node tells its range by
bytes, and its place by a row and by the bytes before it there, both counted from zero. Comments are
nodes too and stand wherever they are found; blanks are not reported.

## Results

* `Concrete.induct` — induction over nodes through their children.
* `size_lt_of_mem_parts` — what a node is made of is smaller than the node.
-/

namespace SourceMigration

/-- What is reported of a node, apart from its children. -/
structure Concrete.Info where
  /-- The rule of the grammar, or the spelling of a sign or a keyword. -/
  type : String
  /-- Tells the node from all others of its tree. -/
  id : Nat
  /-- Whether the node belongs to a named rule, and not to a sign or a keyword. -/
  isNamed : Bool
  /-- Whether the node was put in where the grammar asks for it and the text has nothing. -/
  isMissing : Bool := false
  /-- The number of bytes before the node. -/
  start : Nat
  /-- The number of bytes up to its end. -/
  stop : Nat
  row : Nat
  column : Nat
  deriving DecidableEq, Repr

/-- A node of a concrete syntax tree, and the field of each child that has one. -/
inductive Concrete where
  | node (info : Concrete.Info) (children : List (Option String × Concrete))

namespace Concrete

/-- What is reported of the node itself. -/
def info : Concrete → Info
  | .node i _ => i

/-- The children with their fields. -/
def children : Concrete → List (Option String × Concrete)
  | .node _ cs => cs

/-- The rule of the node, or its spelling. -/
def type (n : Concrete) : String := n.info.type

/-- Induction over nodes through their children. -/
theorem induct {P : Concrete → Prop} (node : ∀ i cs, (∀ c ∈ cs, P c.2) → P (.node i cs)) : ∀ n, P n
  | .node i cs => node i cs (children cs)
where
  children : ∀ (cs : List (Option String × Concrete)), ∀ c ∈ cs, P c.2
    | [], _, h => nomatch h
    | (_, n) :: cs, c, h => by
      cases h with
      | head => exact Concrete.induct node n
      | tail _ h => exact children cs c h

mutual

/-- The number of nodes of a tree. -/
def size : Concrete → Nat
  | .node _ cs => 1 + sizeOfAll cs

/-- The number of nodes of several trees. -/
def sizeOfAll : List (Option String × Concrete) → Nat
  | [] => 0
  | (_, n) :: cs => n.size + sizeOfAll cs

end

/-! ## Errors -/

mutual

/-- Whether the text does not follow the grammar here or below: something fits nowhere, or is
missing. -/
def hasError : Concrete → Bool
  | .node i cs => i.type == "ERROR" || i.isMissing || anyError cs

/-- Whether one of several nodes has an error. -/
def anyError : List (Option String × Concrete) → Bool
  | [] => false
  | (_, n) :: cs => n.hasError || anyError cs

end

mutual

/-- The first node that is an error itself, in the order of the text. -/
def firstError? : Concrete → Option Concrete
  | .node i cs =>
    if i.type == "ERROR" || i.isMissing then some (.node i cs) else firstErrorOf? cs

/-- The first such node below several. -/
def firstErrorOf? : List (Option String × Concrete) → Option Concrete
  | [] => none
  | (_, n) :: cs => n.firstError? <|> firstErrorOf? cs

end

/-! ## Parts -/

/-- The types of comments. -/
def commentTypes : List String := ["line_comment", "block_comment", "comment"]

/-- Whether the node is a comment. -/
def isComment (n : Concrete) : Bool := commentTypes.contains n.type

/-- The children but for comments. -/
def parts (n : Concrete) : List Concrete := (n.children.map Prod.snd).filter (!·.isComment)

/-- The children that belong to named rules, comments included. -/
def namedChildren (n : Concrete) : List Concrete := (n.children.map Prod.snd).filter (·.info.isNamed)

/-- The first child in a field. -/
def field? (n : Concrete) (field : String) : Option Concrete :=
  (n.children.find? (·.1 == some field)).map Prod.snd

/-- Whether the node is the one that was found in a field; where none was found, no node is. -/
def isSame (n : Concrete) (other : Option Concrete) : Bool := other.any (·.info.id == n.info.id)

/-- Whether the node has no children. -/
def isLeaf (n : Concrete) : Bool := n.children.isEmpty

/-- The number of nodes of several trees. -/
def total (ns : List Concrete) : Nat := ns.foldr (·.size + ·) 0

theorem total_cons (n : Concrete) (ns : List Concrete) : total (n :: ns) = n.size + total ns := rfl

theorem size_pos (n : Concrete) : 0 < n.size := by
  cases n
  simp only [size]
  omega

theorem sizeOfAll_eq (cs : List (Option String × Concrete)) : sizeOfAll cs = total (cs.map Prod.snd) := by
  induction cs with
  | nil => rfl
  | cons c cs ih => rw [sizeOfAll, ih, List.map_cons, total_cons]

theorem total_le_of_sublist {ms ns : List Concrete} (h : ms.Sublist ns) : total ms ≤ total ns := by
  induction h with
  | slnil => exact Nat.le_refl _
  | cons _ _ ih => rw [total_cons]; omega
  | cons_cons _ _ ih => rw [total_cons, total_cons]; omega

/-- What a node is made of has fewer nodes than the node. -/
theorem total_parts_lt (n : Concrete) : total n.parts < n.size := by
  obtain ⟨i, cs⟩ := n
  have hLe := total_le_of_sublist (List.filter_sublist (p := (!·.isComment)) (l := cs.map Prod.snd))
  simp only [parts, children, size, sizeOfAll_eq]
  omega

theorem size_le_total {n : Concrete} {ns : List Concrete} (h : n ∈ ns) : n.size ≤ total ns := by
  induction ns with
  | nil => cases h
  | cons m ns ih =>
    rw [total_cons]
    rcases List.mem_cons.mp h with rfl | h
    · omega
    · have := ih h
      omega

theorem size_lt_of_mem_parts {n c : Concrete} (h : c ∈ n.parts) : c.size < n.size :=
  Nat.lt_of_le_of_lt (size_le_total h) n.total_parts_lt

/-- The parts between the first and the last. -/
def inner (n : Concrete) : List Concrete := n.parts.tail.dropLast

theorem total_tail_lt (n : Concrete) : total n.parts.tail < n.size :=
  Nat.lt_of_le_of_lt (total_le_of_sublist (List.tail_sublist _)) n.total_parts_lt

theorem total_inner_lt (n : Concrete) : total n.inner < n.size :=
  Nat.lt_of_le_of_lt (total_le_of_sublist (List.dropLast_sublist _)) n.total_tail_lt

/-! ## Names and types -/

/-- The types of names, dotted or not. -/
def nameTypes : List String :=
  ["identifier", "type_identifier", "scoped_identifier", "scoped_type_identifier", "field_access"]

/-- The types of what dotted names are made of. -/
def nameLeafTypes : List String := ["identifier", "type_identifier", "."]

mutual

/-- Whether all leaves of a node, but for comments, are identifiers and points, within names. -/
def isName : Concrete → Bool
  | .node i cs =>
    commentTypes.contains i.type ||
      if cs.isEmpty then nameLeafTypes.contains i.type else nameTypes.contains i.type && areNames cs

/-- Whether all of several nodes are such. -/
def areNames : List (Option String × Concrete) → Bool
  | [] => true
  | (_, n) :: cs => n.isName && areNames cs

end

mutual

/-- The leaves of a node but for comments, in the order of the text. -/
def leaves : Concrete → List Concrete
  | .node i cs =>
    if commentTypes.contains i.type then []
    else if cs.isEmpty then [.node i cs]
    else leavesOf cs

/-- The leaves of several nodes. -/
def leavesOf : List (Option String × Concrete) → List Concrete
  | [] => []
  | (_, n) :: cs => n.leaves ++ leavesOf cs

end

/-- Whether the node is a class type that is kept whole: a name, or a name with type arguments. Of a
type with arguments that has no parts, nothing can be told. -/
def isTypeTree? (n : Concrete) : Option Bool :=
  if ["type_identifier", "scoped_type_identifier"].contains n.type then some n.isName
  else if n.type == "generic_type" then n.parts.head?.map isName
  else some false

/-- Whether braces stand around some nodes. -/
def areBraced (ns : List Concrete) : Bool :=
  2 ≤ ns.length && ns.head?.any (·.type == "\x7b") && ns.getLast?.any (·.type == "\x7d")

end Concrete

end SourceMigration
