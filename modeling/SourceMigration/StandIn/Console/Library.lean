import SourceMigration.Console.Screen
import SourceMigration.StandIn.Console.Markup
import SourceMigration.StandIn.Console.Wrap

/-!
# SourceMigration — a library that stands in for the console

What is shown of a marked-up text is its plain form, wrapped at the width of the screen and without the
blanks at the ends of lines.

## Results

* `exists_log_of_noBracket` — a message without brackets is shown.
-/

namespace SourceMigration.StandIn

/-- The width of a screen, in cells. -/
def screenWidth : Nat := 400

/-- The width of the level of a message. -/
def levelWidth : Nat := 8

/-- Control characters that are never shown. -/
def isControl (c : Char) : Bool := c.toNat == 7 || c.toNat == 8 || (11 ≤ c.toNat && c.toNat ≤ 13)

/-- The parts of a text between line feeds. -/
def splitFeeds : List Char → List (List Char)
  | [] => [[]]
  | c :: cs =>
    if c = '\n' then [] :: splitFeeds cs
    else
      match splitFeeds cs with
      | [] => [[c]]
      | l :: ls => (c :: l) :: ls

/-- A line without the blanks at its end. -/
def trimEnd (cs : List Char) : String :=
  String.ofList (Text.dropBlankChars cs.reverse).reverse

/-- The lines of a text that is wrapped at a width. -/
def wrapped (width : Nat) (cs : List Char) : List (List Char) :=
  (splitFeeds (cs.filter fun c => !isControl c)).flatMap fun l => wrap width (expandTabs 8 l)

/-- The plain form of a marked-up text. -/
def plainText (message : String) : Except MarkupFault (List Char) :=
  (Markup.plain message).mapError fun why => ⟨why.message⟩

/-- A level in front of the first of some lines, and blanks in front of the others. -/
def besideLevel (level : String) : List (List Char) → List (List Char)
  | [] => []
  | l :: ls =>
    -- Lines after the first are set below the message, not below the level.
    let blanks (n : Nat) : List Char := List.replicate n ' '
    (level.toList ++ blanks (levelWidth + 1 - level.length) ++ l) ::
      ls.map (blanks (levelWidth + 1) ++ ·)

/-- The part of a line that fits into a width. -/
def crop (width : Nat) (cs : List Char) : List Char := (chop width cs).headD []

/-- A text whose lines all end in a line feed only. -/
def withLineFeeds : List Char → List Char
  | [] => []
  | '\r' :: '\n' :: cs => '\n' :: withLineFeeds cs
  | c :: cs => (if c = '\r' then '\n' else c) :: withLineFeeds cs

/-- The text without the end of its last line, unless that is a line feed. -/
def withoutOpenEnd (cs : List Char) : List Char :=
  if cs.getLast? = some '\n' then withLineFeeds cs else (withLineFeeds (cs ++ ['\n'])).dropLast

scoped instance rich : Rich where
  escape := Markup.escaped
  print message := do return (wrapped screenWidth (← plainText message)).map trimEnd
  log level message := do
    let cs ← plainText message
    return (besideLevel level (wrapped (screenWidth - levelWidth - 1) cs)).map trimEnd
  cell message := do
    return Text.strip (String.ofList ((← plainText message).filter fun c => !isControl c))
  verbatim text :=
    let cs := (withoutOpenEnd (expandTabs 4 text.toList)).filter fun c => !isControl c
    (splitFeeds cs).map fun l => trimEnd (crop screenWidth l)

/-- A message without brackets is shown. -/
theorem exists_log_of_noBracket (level : String) {message : String} (h : '[' ∉ message.toList) :
    ∃ ls, Rich.log level message = .ok ls := by
  have hText : plainText message = .ok message.toList :=
    congrArg (Except.mapError _) (Markup.plain_of_noBracket h)
  simp only [Rich.log, hText]
  exact ⟨_, rfl⟩

end SourceMigration.StandIn
