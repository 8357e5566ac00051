import SourceMigration.Tree.Node

/-!
# SourceMigration — labels

The name by which a node is listed: what it declares, calls or refers to, and for a token its
spelling. Declarations, calls and tokens can be given another label.
-/

namespace SourceMigration

namespace Node

/-- The label of a node. A reference is listed by the last part of its name, and what neither
declares nor names anything has no label. -/
def label : Node → Option String
  | .token t => some t.text
  | .branch (.name t) cs => (Node.branch (.name t) cs).nameParts.getLast?
  | .branch (.call m) cs => ((Node.branch (.call m) cs).tokenAt? .callee).map Token.text
  | .branch .method cs => ((Node.branch .method cs).tokenAt? .name).map Token.text
  | .branch .typeDeclaration cs => ((Node.branch .typeDeclaration cs).tokenAt? .name).map Token.text
  | .branch _ _ => none

/-- A reference without any part has lost the name it would be listed by. -/
def labelDefect? : Node → Option Defect
  | .branch (.name t) cs =>
    if (Node.branch (.name t) cs).nameParts.isEmpty then some .emptyRun else none
  | _ => none

/-- A token, a method or a call with another label. A call that denotes a method then denotes
one of the new name. -/
def relabelled? (n : Node) (new : String) : Option Node :=
  match n with
  | .token t => some (.token (t.withText new))
  | .branch (.call m) cs =>
    ((Node.branch (.call m) cs).tokenAt? .callee).map fun t =>
      (Node.branch (.call (m.map fun m => { m with name := new })) cs).setField .callee
        (.token (t.withText new))
  | .branch .method cs =>
    ((Node.branch .method cs).tokenAt? .name).map fun t =>
      (Node.branch .method cs).setField .name (.token (t.withText new))
  | .branch _ _ => none

theorem field_setField {cs : List (Field × Node)} {k : NodeKind} {f : Field} {new old : Node}
    (h : (Node.branch k cs).field? f = some old) :
    ((Node.branch k cs).setField f new).field? f = some new := by
  unfold field? field at *
  simp only [setField, children] at *
  induction cs with
  | nil => simp at h
  | cons c cs ih =>
    obtain ⟨g, n⟩ := c
    by_cases hg : g = f
    · simp [setField.replaceFirst, hg]
    · simp only [setField.replaceFirst, if_neg hg, List.filterMap_cons] at h ⊢
      exact ih h

end Node

end SourceMigration
