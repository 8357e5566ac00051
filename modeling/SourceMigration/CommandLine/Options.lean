/-!
# SourceMigration — options on a command line

How the words of a command line are told apart. Before any of them is acted on, every word is
found to be an option, an argument or a pair of hyphens, after which all words are arguments.

An option is given by its name, or by the front of a long name if no other begins so. A value
follows as the next word or after an equals sign. Options of one letter may stand together. A word
that only looks like an option is an argument if it is a number or holds a space.
-/

namespace SourceMigration

/-- An option of a command. -/
structure OptionSpec where
  /-- The long name, by which the option is known. -/
  name : String
  /-- The letter that stands for it, if any. -/
  letter : Option Char := none
  takesValue : Bool := false
  deriving DecidableEq, Repr

namespace OptionSpec

/-- The long form. -/
def long (o : OptionSpec) : List Char := '-' :: '-' :: o.name.toList

/-- The short form. -/
def short? (o : OptionSpec) : Option (List Char) := o.letter.map fun c => ['-', c]

end OptionSpec

/-- The forms in which the options of a command are given. -/
abbrev OptionForms := List (List Char × OptionSpec)

/-- The forms of some options. -/
def OptionForms.ofSpecs (os : List OptionSpec) : OptionForms :=
  os.flatMap fun o => (o.short?.map fun s => (s, o)).toList ++ [(o.long, o)]

/-- What is written right after the form of an option. -/
structure Attached where
  byEquals : Bool
  text : List Char
  deriving DecidableEq, Repr

/-- What a word of a command line is. -/
inductive WordKind where
  | argument
  /-- The two hyphens after which all words are arguments. -/
  | separator
  /-- An option: whether its form is long, and what is attached to it. -/
  | option (spec : OptionSpec) (isLong : Bool) (attached : Option Attached)
  /-- What looks like an option and is none. -/
  | unknown
  deriving DecidableEq, Repr

/-- Why nothing is run. -/
inductive Halt where
  | help
  | version
  | misuse
  deriving DecidableEq, Repr

namespace CommandLine

/-! ## Kinds of words -/

/-- Whether a word is a number below zero. -/
def isNegativeNumber : List Char → Bool
  | '-' :: cs =>
    let whole := cs.takeWhile Char.isDigit
    match cs.drop whole.length with
    | [] => !whole.isEmpty
    | '.' :: ds => !ds.isEmpty && ds.all Char.isDigit
    | _ => false
  | _ => false

/-- The part of a word before its first equals sign, and what stands after that. -/
def splitEquals (w : List Char) : List Char × Option Attached :=
  let front := w.takeWhile (· != '=')
  match w.drop front.length with
  | [] => (front, none)
  | _ :: value => (front, some ⟨true, value⟩)

def isLongForm (form : List Char) : Bool := form.take 2 == ['-', '-']

/-- The options that the front of a form may stand for. -/
def candidates (forms : OptionForms) (w : List Char) :
    List (OptionSpec × Bool × Option Attached) :=
  if isLongForm w then
    let (front, attached) := splitEquals w
    forms.filterMap fun (form, o) =>
      if front.isPrefixOf form then some (o, isLongForm form, attached) else none
  else
    forms.filterMap fun (form, o) =>
      if form = w.take 2 then some (o, false, some ⟨false, w.drop 2⟩)
      else if w.isPrefixOf form then some (o, isLongForm form, none)
      else none

/-- What a word before the two hyphens is; none if it may stand for several options. -/
def classify (forms : OptionForms) (w : List Char) : Option WordKind :=
  match w with
  | '-' :: rest =>
    match forms.lookup w with
    | some o => some (.option o (isLongForm w) none)
    | none =>
      if rest.isEmpty then some .argument
      else
        let (front, attached) := splitEquals w
        match attached.bind fun _ => forms.lookup front with
        | some o => some (.option o (isLongForm front) attached)
        | none =>
          match candidates forms w with
          -- No option is a number, so a number with a minus is an argument.
          | [] => some (if isNegativeNumber w || w.contains ' ' then .argument else .unknown)
          | [(o, isLong, attached)] => some (.option o isLong attached)
          | _ => none
  | _ => some .argument

/-- A word with its kind. -/
structure Word where
  text : String
  kind : WordKind
  deriving DecidableEq, Repr

/-- The kinds of all words. -/
def classifyAll (forms : OptionForms) : List String → Except Halt (List Word)
  | [] => .ok []
  | w :: ws =>
    if w = "--" then .ok (⟨w, .separator⟩ :: ws.map fun w => ⟨w, .argument⟩)
    else
      match classify forms w.toList with
      | none => .error .misuse
      | some kind => (classifyAll forms ws).map (⟨w, kind⟩ :: ·)

/-! ## Switches -/

/-- Switches given by one word, and whether something in it is no switch. -/
structure Switches where
  specs : List OptionSpec
  hasUnknown : Bool := false
  deriving DecidableEq, Repr

/-- The switches of letters that stand together, after a first one. -/
def lettersFrom (forms : OptionForms) : List Char → Except Halt Switches
  | [] => .ok ⟨[], false⟩
  | c :: cs =>
    -- Each letter stands for a switch; the first that does not ends the word.
    match forms.lookup ['-', c] with
    | none => .ok ⟨[], true⟩
    | some o =>
      match cs with
      | '=' :: _ | '-' :: _ => .error .misuse
      | _ => (lettersFrom forms cs).map fun s => { s with specs := o :: s.specs }

/-- The switches that a word gives. -/
def switchesOf (forms : OptionForms) (o : OptionSpec) (isLong : Bool) :
    Option Attached → Except Halt Switches
  | none => .ok ⟨[o], false⟩
  | some a =>
    if isLong || a.text.isEmpty || a.byEquals || a.text.head? = some '-' then .error .misuse
    else (lettersFrom forms a.text).map fun s => { s with specs := o :: s.specs }

/-! ## Reading -/

/-- What a command was given. -/
structure Given where
  /-- The options with their values, the last one first. -/
  options : List (String × String) := []
  argument : Option String := none
  /-- Whether a word had no place. -/
  hasSurplus : Bool := false
  deriving DecidableEq, Repr

namespace Given

/-- The value of an option; the last one counts. -/
def value? (g : Given) (name : String) : Option String := g.options.lookup name

/-- Whether an option was given. -/
def has (g : Given) (name : String) : Bool := (g.value? name).isSome

end Given

/-- Acts on a switch. -/
def addSwitch (g : Given) (o : OptionSpec) : Except Halt Given :=
  if o.name = "help" then .error .help
  else if o.name = "version" then .error .version
  else .ok { g with options := (o.name, "") :: g.options }

/-- Acts on the switches of a word. -/
def addSwitches (g : Given) (s : Switches) : Except Halt Given := do
  let g ← s.specs.foldlM addSwitch g
  pure { g with hasSurplus := g.hasSurplus || s.hasUnknown }

/-- Whether a value may stand for an option; some values are whole numbers. -/
abbrev ValueCheck := String → String → Bool

/-- Reads the words of a command that takes at most one argument. The two hyphens may stand
before the argument or right after it; `justTaken` tells whether the word before was it. -/
def readWords (check : ValueCheck) (forms : OptionForms) (takesArgument : Bool) :
    Given → Bool → List Word → Except Halt Given
  | g, _, [] => .ok g
  | g, justTaken, w :: ws =>
    match w.kind with
    | .argument =>
      if takesArgument && g.argument.isNone then
        readWords check forms takesArgument { g with argument := some w.text } true ws
      else readWords check forms takesArgument { g with hasSurplus := true } false ws
    | .separator =>
      -- The two hyphens are taken along with the argument, once.
      let fits := takesArgument && (g.argument.isNone || justTaken)
      readWords check forms takesArgument { g with hasSurplus := g.hasSurplus || !fits } false ws
    | .unknown => readWords check forms takesArgument { g with hasSurplus := true } false ws
    | .option o isLong attached =>
      if o.takesValue then
        match attached, ws with
        | some a, ws =>
          let value := String.ofList a.text
          if check o.name value then
            readWords check forms takesArgument
              { g with options := (o.name, value) :: g.options } false ws
          else .error .misuse
        | none, ⟨value, .argument⟩ :: ws =>
          if check o.name value then
            readWords check forms takesArgument
              { g with options := (o.name, value) :: g.options } false ws
          else .error .misuse
        | none, _ => .error .misuse
      else
        match (switchesOf forms o isLong attached).bind (addSwitches g) with
        | .error h => .error h
        | .ok g => readWords check forms takesArgument g false ws

end CommandLine

end SourceMigration
