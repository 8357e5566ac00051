import SourceMigration.CommandLine.Options
import SourceMigration.Files.Path
import SourceMigration.Text.Blank
import SourceMigration.Text.Numeral

/-!
# SourceMigration — the command line

What is asked for on the command line: to migrate files, to list those that would change, or to
list the recipes. The name of the command is the first word that is no option; what stands after
it is read with the options of the command. Words are also held against the options that stand
before a command, wherever they stand.
-/

namespace SourceMigration

/-- What a run of `migrate` is told on the command line. -/
structure MigrateOptions where
  path : FilePath
  recipe : Option String := none
  out : Option FilePath := none
  isDry : Bool := false
  showsDiff : Bool := false
  workers : Option Int := none
  report : Option FilePath := none
  deriving DecidableEq, Repr

/-- A command. -/
inductive Command where
  | migrate (options : MigrateOptions)
  | check (path : FilePath) (recipe : Option String)
  | recipes
  deriving DecidableEq, Repr

/-- A command with what stands before it. -/
structure Invocation where
  isVerbose : Bool
  command : Command
  deriving DecidableEq, Repr

namespace Invocation

/-! ## Options -/

def help : OptionSpec := { name := "help", letter := some 'h' }

/-- The options before a command. -/
def ownOptions : OptionForms :=
  .ofSpecs [help, { name := "version" }, { name := "verbose", letter := some 'v' }]

def migrateOptions : OptionForms :=
  .ofSpecs [help, { name := "recipe", takesValue := true }, { name := "out", takesValue := true },
    { name := "dry-run" }, { name := "diff" }, { name := "workers", takesValue := true },
    { name := "json-report", takesValue := true }]

def checkOptions : OptionForms := .ofSpecs [help, { name := "recipe", takesValue := true }]

def recipesOptions : OptionForms := .ofSpecs [help]

/-- The whole number that a text spells, with blanks around it and one sign before it. -/
def wholeNumber? (s : String) : Option Int :=
  match Text.stripChars s.toList with
  | '-' :: cs => (Numeral.digits? cs).map fun ds => -(Numeral.ofDigits ds : Int)
  | '+' :: cs => (Numeral.digits? cs).map fun ds => (Numeral.ofDigits ds : Int)
  | cs => (Numeral.digits? cs).map fun ds => (Numeral.ofDigits ds : Int)

/-- The number of workers is a whole number; other values may be anything. -/
def checkValue (option value : String) : Bool :=
  option != "workers" || (wholeNumber? value).isSome

/-! ## Commands -/

/-- What a command was given, if it is used rightly. -/
def read (forms : OptionForms) (takesArgument : Bool) (words : List String) :
    Except Halt CommandLine.Given := do
  let words ← CommandLine.classifyAll forms words
  let g ← CommandLine.readWords checkValue forms takesArgument {} false words
  -- Words without a place are refused only when all have been acted on.
  if g.hasSurplus || g.argument.isSome != takesArgument then throw .misuse else pure g

/-- The path that a command was given. -/
def pathOf (g : CommandLine.Given) : FilePath := FilePath.ofText (g.argument.getD "")

/-- Reads a command from its name and the words after it. -/
def readCommand (name : String) (words : List String) : Except Halt Command :=
  if name = "migrate" then do
    let g ← read migrateOptions true words
    pure (.migrate
      { path := pathOf g
        recipe := g.value? "recipe"
        out := (g.value? "out").map FilePath.ofText
        isDry := g.has "dry-run"
        showsDiff := g.has "diff"
        workers := (g.value? "workers").bind wholeNumber?
        report := (g.value? "json-report").map FilePath.ofText })
  else if name = "check" then do
    let g ← read checkOptions true words
    pure (.check (pathOf g) (g.value? "recipe"))
  else if name = "recipes" then do
    let _ ← read recipesOptions false words
    pure .recipes
  else .error .misuse

/-- Reads the words up to the name of the command, and then the command. -/
def readOwn (g : CommandLine.Given) : List CommandLine.Word → Except Halt Invocation
  | [] => .error .misuse
  | w :: ws =>
    match w.kind with
    | .argument => do
      -- The words are told apart again, by the options of the command.
      let command ← readCommand w.text (ws.map CommandLine.Word.text)
      if g.hasSurplus then throw .misuse else pure ⟨g.has "verbose", command⟩
    | .separator => .error .misuse
    | .unknown => readOwn { g with hasSurplus := true } ws
    | .option o isLong attached =>
      match (CommandLine.switchesOf ownOptions o isLong attached).bind
          (CommandLine.addSwitches g) with
      | .error h => .error h
      | .ok g => readOwn g ws

/-- Reads a command line. -/
def ofWords (words : List String) : Except Halt Invocation := do
  readOwn {} (← CommandLine.classifyAll ownOptions words)

end Invocation

end SourceMigration
