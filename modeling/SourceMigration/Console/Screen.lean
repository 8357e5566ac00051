/-!
# SourceMigration — the screen

What a run shows: messages with their level in front, plain lines, tables and differences. Texts are
marked up, and a library makes lines of them; a text that it cannot make out is a fault. The library
itself is no part of this: `Rich` stands for whatever it shows, and what may be relied on is said where it
is relied on. Debug messages show only on a verbose screen.

## Results

* `log_debug_of_quiet` — a debug message leaves a quiet screen as it is.
-/

namespace SourceMigration

/-- Why a text cannot be shown. -/
structure MarkupFault where
  message : String
  deriving DecidableEq, Repr

/-- A library that shows marked-up texts. -/
class Rich where
  /-- The marked-up text that shows a given one. -/
  escape : String → String
  /-- The lines of a text. -/
  print : String → Except MarkupFault (List String)
  /-- The lines of a message of a level. -/
  log (level message : String) : Except MarkupFault (List String)
  /-- What a cell of a table shows. -/
  cell : String → Except MarkupFault String
  /-- The lines of a text in which nothing is marked up. -/
  verbatim : String → List String

/-- Something on a screen: a line, or a row of a table. -/
inductive ScreenItem where
  | line (s : String)
  | row (cells : List String)
  deriving DecidableEq, Repr

/-- The level of a message. -/
inductive Level where
  | debug
  | info
  | success
  | warning
  | error
  deriving DecidableEq, Repr

namespace Level

/-- The name of a level. -/
def title : Level → String
  | .debug => "DEBUG"
  | .info => "INFO"
  | .success => "SUCCESS"
  | .warning => "WARNING"
  | .error => "ERROR"

/-- The picture in front of a message. -/
def mark : Level → String
  | .debug => ""
  | .info => "ℹ️  "
  | .success => "✅ "
  | .warning => "⚠️  "
  | .error => "❌ "

end Level

/-- What is shown so far. -/
structure Screen where
  isVerbose : Bool := false
  items : List ScreenItem := []
  deriving Inhabited

namespace Screen

/-- Adds lines. -/
def addLines (s : Screen) (ls : List String) : Screen := { s with items := s.items ++ ls.map .line }

section Library

variable [Rich]

/-- Shows a text. -/
def print (s : Screen) (message : String) : Except MarkupFault Screen :=
  (Rich.print message).map s.addLines

/-- Shows a message of a level. -/
def log (s : Screen) (level : Level) (message : String) : Except MarkupFault Screen :=
  if level = .debug ∧ !s.isVerbose then .ok s
  else (Rich.log level.title (level.mark ++ message)).map s.addLines

/-- Shows debug messages. -/
def debug (s : Screen) (messages : List String) : Except MarkupFault Screen :=
  messages.foldlM (fun s m => s.log .debug m) s

/-- Shows a table: its title, the names of the columns, and the rows. -/
def table (s : Screen) (title : String) (header : List String) (rows : List (List String)) :
    Except MarkupFault Screen := do
  let rows ← (header :: rows).mapM fun r => r.mapM Rich.cell
  return { s with items := s.items ++ .line title :: rows.map .row }

/-- Shows a difference as it is. -/
def difference (s : Screen) (text : String) : Screen := s.addLines (Rich.verbatim text)

/-- A debug message leaves a quiet screen as it is. -/
theorem log_debug_of_quiet {s : Screen} (h : s.isVerbose = false) (message : String) :
    s.log .debug message = .ok s := by
  simp [log, h]

end Library

/-- What is shown, without the empty lines at the end. -/
def shown (s : Screen) : List ScreenItem :=
  (s.items.reverse.dropWhile (· == .line "")).reverse

end Screen

end SourceMigration
