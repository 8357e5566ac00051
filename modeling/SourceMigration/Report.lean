import SourceMigration.Migration
import SourceMigration.Text.Quoted

/-!
# SourceMigration — reports

The report of a run for other programs: for every file its status, its errors and its trace, as
a JSON document. The document is plain ASCII; other characters are written by their code
units. An event tells the phase that it belongs to by the position of the event that opened it.
-/

namespace SourceMigration

/-- A value of a report. -/
inductive ReportValue where
  | null
  | flag (b : Bool)
  | number (n : Nat)
  | text (s : String)
  | list (values : List ReportValue)
  | table (entries : List (String × ReportValue))
  deriving Inhabited

namespace ReportValue

/-! ## Texts -/

/-- One code unit of sixteen bits in hexadecimal digits. -/
def unitChars (n : Nat) : List Char := '\\' :: 'u' :: Text.hexDigits 4 n

/-- The written form of one character. Beyond the first plane it has two code units. -/
def charChars (c : Char) : List Char :=
  let n := c.toNat
  if c = '"' then ['\\', '"']
  else if c = '\\' then ['\\', '\\']
  else if c = '\n' then ['\\', 'n']
  else if c = '\r' then ['\\', 'r']
  else if c = '\t' then ['\\', 't']
  else if n = 8 then ['\\', 'b']
  else if n = 12 then ['\\', 'f']
  else if 0x20 ≤ n ∧ n < 0x7F then [c]
  else if n < 0x10000 then unitChars n
  else
    -- Two halves of ten bits each, high one first.
    let rest := n - 0x10000
    unitChars (0xD800 + rest / 0x400) ++ unitChars (0xDC00 + rest % 0x400)

/-- The written form of a text. -/
def textChars (s : String) : List Char := '"' :: (s.toList.flatMap charChars ++ ['"'])

/-! ## Layout -/

/-- A new line at a depth. -/
def breakChars (depth : Nat) : List Char := '\n' :: List.replicate (2 * depth) ' '

/-- What has entries, between brackets and with a line for each entry. -/
def bracketed (depth : Nat) (opening closing : Char) : List (List Char) → List Char
  | [] => [opening, closing]
  | e :: es =>
    opening :: (breakChars (depth + 1) ++ e ++
      es.flatMap (fun e => ',' :: (breakChars (depth + 1) ++ e)) ++ breakChars depth ++ [closing])

mutual

/-- The written form of a value at a depth. -/
def chars (depth : Nat) : ReportValue → List Char
  | .null => ['n', 'u', 'l', 'l']
  | .flag true => ['t', 'r', 'u', 'e']
  | .flag false => ['f', 'a', 'l', 's', 'e']
  | .number n => (toString n).toList
  | .text s => textChars s
  | .list vs => bracketed depth '[' ']' (charsOfList (depth + 1) vs)
  | .table es => bracketed depth '\x7b' '\x7d' (charsOfEntries (depth + 1) es)

/-- The written forms of values at a depth. -/
def charsOfList (depth : Nat) : List ReportValue → List (List Char)
  | [] => []
  | v :: vs => chars depth v :: charsOfList depth vs

/-- The written forms of named values at a depth. -/
def charsOfEntries (depth : Nat) : List (String × ReportValue) → List (List Char)
  | [] => []
  | (k, v) :: es => (textChars k ++ [':', ' '] ++ chars depth v) :: charsOfEntries depth es

end

/-- The document of a value. -/
def render (v : ReportValue) : String := String.ofList (chars 0 v)

/-! ## What a report holds -/

def ofDetail : Detail → ReportValue
  | .text s => .text s
  | .flag b => .flag b

/-- An event of a trace. -/
def ofEvent (e : Event) : ReportValue :=
  .table [("type", .text e.kind.title), ("description", .text e.description),
    ("parent", (e.parent.map number).getD .null),
    ("metadata", .table (e.details.map fun (k, d) => (k, ofDetail d)))]

/-- The result of one file. -/
def ofResult (r : MigrationResult) : ReportValue :=
  .table [("path", (r.path.map text).getD .null), ("status", .text r.status.title),
    ("errors", .list (r.faults.map fun f => .text f.message)),
    ("trace_events", .list (r.trace.events.toList.map ofEvent))]

/-- The results of all files, under their names. -/
def ofResults (rs : List MigrationResult) : ReportValue :=
  .table (rs.map fun r => (r.path.getD "", ofResult r))

/-! ## Plain ASCII -/

end ReportValue

end SourceMigration
