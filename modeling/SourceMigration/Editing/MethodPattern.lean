import SourceMigration.Text.Alphanumeric
import SourceMigration.Text.Blank
import SourceMigration.Text.Quoted
import SourceMigration.Tree.TypeName

/-!
# SourceMigration — method patterns

A pattern such as `a.b.Layout format(..)` selects calls by the type that declares the method,
by its name and by the number of arguments. Two points between the parentheses stand for any
number; otherwise only the number of commas between them counts.
-/

namespace SourceMigration

/-- Which calls a pattern selects. -/
structure MethodPattern where
  /-- The text of the pattern, by which patterns are told apart. -/
  source : String
  declaring : TypeName
  name : String
  /-- The number of arguments, or any. -/
  arity : Option Nat
  deriving DecidableEq, Repr, Inhabited

namespace MethodPattern

/-- The characters of a type in a pattern. -/
def isOwnerCharacter (c : Char) : Bool := Text.isWordCharacter c || c == '$' || c == '.'

/-- The characters of a method name in a pattern. -/
def isNameCharacter (c : Char) : Bool := Text.isWordCharacter c || c == '$'

/-- The number of arguments that the text between the parentheses asks for. -/
def arityOf (arguments : List Char) : Option Nat :=
  let arguments := Text.stripChars arguments
  if arguments = ['.', '.'] then none
  else if arguments.isEmpty then some 0
  else some (arguments.count ',' + 1)

/-- Reads a pattern. -/
def parse? (source : String) : Option MethodPattern :=
  let cs := Text.dropBlankChars source.toList
  let owner := cs.takeWhile isOwnerCharacter
  let afterOwner := cs.dropWhile isOwnerCharacter
  let cs := Text.dropBlankChars afterOwner
  let name := cs.takeWhile isNameCharacter
  let rest := Text.dropBlankChars (cs.dropWhile isNameCharacter)
  -- A blank must part the type from the name.
  if owner.isEmpty || name.isEmpty || !afterOwner.head?.any Text.isBlank then none
  else
    match rest with
    | '(' :: inner =>
      let inside := fun c => c != '(' && c != ')'
      match inner.dropWhile inside with
      | ')' :: after =>
        if after.all Text.isBlank then
          some ⟨source, ⟨String.ofList owner⟩, String.ofList name, arityOf (inner.takeWhile inside)⟩
        else none
      | _ => none
    | _ => none

/-- What is said of a text that is no pattern. -/
def refusal (source : String) : String := "Invalid method pattern: " ++ Text.quoted source

/-- Whether a call is selected; one that denotes no method never is. -/
def selects (p : MethodPattern) : Option MethodType → Bool
  | none => false
  | some m => m.declaring == p.declaring && m.name == p.name && p.arity.all (· == m.arity)

end MethodPattern

end SourceMigration
