import SourceMigration.Text.Blank

/-!
# SourceMigration — styles

The names of styles in marked-up texts. A name lists attributes and colours in any order and
under any of their short forms, so that the tag that closes a style need not spell it as the
tag that opened it did. A name that lists anything else stands for itself.
-/

namespace SourceMigration.StandIn

/-- What a name of a style stands for. -/
inductive Style where
  /-- Attributes that are switched on or off, a colour and a colour of the ground. -/
  | look (attributes : List (String × Bool)) (colour ground : Option String)
  /-- A name without a further meaning. -/
  | named (name : String)
  deriving DecidableEq, Repr

namespace Style

/-- The attributes, in order, with their short forms. -/
def attributes : List (String × List String) :=
  [("bold", ["b"]), ("dim", ["d"]), ("italic", ["i"]), ("underline", ["u"]), ("blink", []),
    ("blink2", []), ("reverse", ["r"]), ("conceal", ["c"]), ("strike", ["s"]),
    ("underline2", ["uu"]), ("frame", []), ("encircle", []), ("overline", ["o"])]

/-- The attribute that a word stands for. -/
def attribute? (word : String) : Option String :=
  (attributes.find? fun (name, short) => name == word || short.contains word).map (·.1)

def colours : List String :=
  ["default", "black", "red", "green", "yellow", "blue", "magenta", "cyan", "white"]

/-- Whether a word is a colour: a name, a bright one, or six hexadecimal digits. -/
def isColour (word : String) : Bool :=
  colours.contains word || (colours.drop 1).any (fun c => "bright_" ++ c == word) ||
    match word.toList with
    | '#' :: ds => ds.length == 6 && ds.all fun d => d.isDigit || ('a' ≤ d && d ≤ 'f')
    | _ => false

/-- The words of a text, in small letters. -/
def words : List Char → List Char → List String
  | word, [] => if word.isEmpty then [] else [String.ofList word]
  | word, c :: cs =>
    if Text.isBlank c then
      if word.isEmpty then words [] cs else String.ofList word :: words [] cs
    else words (word ++ [c.toLower]) cs

/-- Switches an attribute; a later switch of the same one counts. -/
def switch (name : String) (on : Bool) (switches : List (String × Bool)) : List (String × Bool) :=
  (name, on) :: switches.filter (·.1 != name)

/-- Reads the words of a style: the switches in the order of the attributes, and the colours. -/
def ofWords? : List (String × Bool) → Option String → Option String → List String → Option Style
  | switches, colour, ground, [] =>
    some (.look
      (attributes.filterMap fun (name, _) => (switches.lookup name).map fun on => (name, on))
      colour ground)
  | switches, colour, _, "on" :: word :: rest =>
    if isColour word then ofWords? switches colour (some word) rest else none
  | switches, colour, ground, "not" :: word :: rest =>
    match attribute? word with
    | some name => ofWords? (switch name false switches) colour ground rest
    | none => none
  | switches, colour, ground, word :: rest =>
    match attribute? word with
    | some name => ofWords? (switch name true switches) colour ground rest
    | none => if isColour word then ofWords? switches (some word) ground rest else none

/-- The style of a name. -/
def ofName (name : String) : Style :=
  let plain := (Text.strip name).toList.map Char.toLower
  (ofWords? [] none none (words [] plain)).getD (.named (String.ofList plain))

end Style

end SourceMigration.StandIn
