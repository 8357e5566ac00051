import SourceMigration.Parsing.TreeBuilder
import SourceMigration.Text.Blank
import SourceMigration.Text.Lines

/-!
# SourceMigration — parsing

From a source text to the tree of its unit, and from the text of a class type to the tree of that
type. The text goes to a parser library; what the library reports is converted, or refused where the
library has found errors. The library itself is no part of this: `TreeSitter` stands for whatever it
reports, and what may be relied on is said where it is relied on.

A type is parsed as that of a field, in a class made up for it. It must be the type of the only field
of the only class, and begin and end where its text does.

## Results

* `parse_eq_ok_iff`     — when a text is a unit.
* `parseType_eq_ok_iff` — when a text is a class type.
-/

namespace SourceMigration

/-- A parser library with the grammar of the language. -/
class TreeSitter where
  /-- The root of the concrete syntax tree of a text. -/
  root : String → Concrete

/-- What is wrong at a place of a refused text. -/
inductive Fault where
  | missing (type : String)
  /-- What fits nowhere, with an excerpt of it. -/
  | outOfPlace (excerpt : String)
  | unclear
  /-- The conversion asks for what is not there, in a text without errors. -/
  | unconverted
  deriving DecidableEq, Repr

/-- The wording of a fault. -/
def Fault.message : Fault → String
  | .missing type => "Expected '" ++ type ++ "'"
  | .outOfPlace excerpt => "Unexpected '" ++ excerpt ++ "'"
  | .unclear => "Syntax error"
  | .unconverted => "Unexpected syntax tree"

/-- A message with the place it is about; a place without a column names none. -/
def located (message : String) (line column : Option Int) : String :=
  match line with
  | none => message
  | some l =>
    let c := match column with
      | some c => toString c
      | none => "None"
    message ++ " (line " ++ toString l ++ ", col " ++ c ++ ")"

/-- Why a text was refused, and where. -/
structure Refusal where
  fault : Fault
  line : Nat
  column : Int
  deriving DecidableEq, Repr

/-- The full text of a refusal. -/
def Refusal.text (r : Refusal) : String := located r.fault.message (some r.line) (some r.column)

namespace Parsing

/-- The first line of what some characters are but for blanks, up to forty characters of it. -/
def excerpt (cs : List Char) : String :=
  String.ofList (((Text.splitLines (Text.stripChars cs)).headD []).takeWhile (!Text.endsLine ·) |>.take 40)

/-- What is wrong at a node that is an error itself. -/
def faultAt (source : List Char) (n : Concrete) : Fault :=
  if n.info.isMissing then .missing n.type
  else
    match Text.slice? source n.info.start n.info.stop with
    | none => .unconverted
    | some cs => if excerpt cs = "" then .unclear else .outOfPlace (excerpt cs)

/-- What to report about a text with errors. The first line begins `shift` bytes before the part of the
text that is asked about. -/
def diagnose (source : List Char) (shift : Nat) (root : Concrete) : Refusal :=
  let n := root.firstError?.getD root
  ⟨faultAt source n, n.info.row + 1, n.info.column + 1 - (if n.info.row = 0 then shift else 0 : Nat)⟩

/-- What is reported of a text that the conversion does not get through. -/
def unconverted : Refusal := ⟨.unconverted, 1, 1⟩

section Library

variable [TreeSitter]

/-- The unit of a source text, or what is wrong with the text. -/
def parse (text : String) : Except Refusal Node :=
  let root := TreeSitter.root text
  if root.hasError then .error (diagnose text.toList 0 root)
  else
    match TreeBuilder.unit text.toList root 0 with
    | none => .error unconverted
    | some (unit, _) => .ok unit

/-! ## Class types -/

/-- What stands before the type in the class made up for it. -/
def holderFront : String := "class TypeHolder \x7b "

/-- What stands behind it. -/
def holderBack : String := " value; \x7d"

/-- Why a text is no class type. -/
inductive TypeRefusal where
  | refused (why : Refusal)
  /-- The text is not exactly one type. -/
  | notSingle
  | notClass (type : String)
  deriving DecidableEq, Repr

/-- The full text of a refusal. -/
def TypeRefusal.text : TypeRefusal → String
  | .refused why => why.text
  | .notSingle => located "Expected a single type reference" (some 1) (some 1)
  | .notClass type => located ("Expected a class type, found " ++ type) (some 1) (some 1)

/-- The type of the only field of the only declaration. A class without a body is nothing that could be
looked into. -/
def holderFieldType? (root : Concrete) : Option (Option Concrete) :=
  match root.namedChildren with
  | [declaration] =>
    if declaration.type != "class_declaration" then some none
    else
      (declaration.field? "body").map fun body =>
        match body.namedChildren.filter (·.type == "field_declaration") with
        | [field] => field.field? "type"
        | _ => none
  | _ => some none

/-- The tree of a text that is exactly one class type: a dotted name, with type arguments or without. Its
tokens keep the places they have behind the front of the holder. -/
def parseType (text : String) : Except TypeRefusal Node :=
  let source := holderFront ++ text ++ holderBack
  let start := holderFront.utf8ByteSize
  let stop := start + text.utf8ByteSize
  let root := TreeSitter.root source
  if root.hasError then .error (.refused (diagnose source.toList start root))
  else
    match holderFieldType? root with
    | none => .error (.refused unconverted)
    | some none => .error .notSingle
    | some (some type) =>
      if type.info.start != start || type.info.stop != stop then .error .notSingle
      else
        match type.isTypeTree? with
        | none => .error (.refused unconverted)
        | some false => .error (.notClass type.type)
        | some true =>
          match TreeBuilder.typeTree source.toList type start with
          | none => .error (.refused unconverted)
          | some (tree, _) => .ok tree

/-! ## Success -/

/-- A text is a unit if no errors are found in it and the conversion gets through. -/
theorem parse_eq_ok_iff {text : String} {unit : Node} :
    parse text = .ok unit ↔ (TreeSitter.root text).hasError = false ∧
      ∃ stop, TreeBuilder.unit text.toList (TreeSitter.root text) 0 = some (unit, stop) := by
  unfold parse
  simp only
  split
  · rename_i hError
    simp [hError]
  · rename_i hError
    split
    · rename_i hNone
      simp [hNone]
    · rename_i unit' stop hSome
      simp [hSome, hError]

/-- A text that is exactly one class type, and the tree of the type: no errors are found in the class made up
for it, and the type of the only field there begins and ends where the text does. -/
structure SingleType (text : String) (tree : Node) : Prop where
  accepted : (TreeSitter.root (holderFront ++ text ++ holderBack)).hasError = false
  spanned : ∃ type, holderFieldType? (TreeSitter.root (holderFront ++ text ++ holderBack)) =
    some (some type) ∧
    type.info.start = holderFront.utf8ByteSize ∧
    type.info.stop = holderFront.utf8ByteSize + text.utf8ByteSize ∧ type.isTypeTree? = some true ∧
    ∃ stop, TreeBuilder.typeTree (holderFront ++ text ++ holderBack).toList type holderFront.utf8ByteSize =
      some (tree, stop)

/-- The tree of a text is that of a class type exactly if the text is one. -/
theorem parseType_eq_ok_iff {text : String} {tree : Node} :
    parseType text = .ok tree ↔ SingleType text tree := by
  unfold parseType
  dsimp only
  constructor
  · intro h
    split at h
    · cases h
    · rename_i hError
      split at h
      · cases h
      · cases h
      · rename_i type hField
        split at h
        · cases h
        · rename_i hSpan
          split at h
          · cases h
          · cases h
          · rename_i hTree
            split at h <;> cases h
            rename_i stop hConverted
            simp only [Bool.or_eq_true, bne_iff_ne, not_or, Decidable.not_not] at hSpan
            exact ⟨by simpa using hError, type, hField, hSpan.1, hSpan.2, hTree, stop, hConverted⟩
  · rintro ⟨hAccepted, type, hField, hStart, hStop, hTree, stop, hConverted⟩
    simp only [hAccepted, hField, hStart, hStop, hTree, hConverted, bne_self_eq_false, Bool.or_self,
      Bool.false_eq_true, if_false]

end Library

end Parsing

end SourceMigration
