import SourceMigration.Settings.Value
import SourceMigration.Text.Numeral

/-!
# SourceMigration — reading TOML

The settings file is written in TOML: lines that give a value to a dotted key, and headers that
open a table or a further table of a list. A document is read as a whole or not at all.

Tables can be named in several places, but not all: a table is opened by one header, a table
that dotted keys have built is opened by none, and nothing is added to a list or a table that
was written in one piece. `Marks` keeps what was done to which key.
-/

namespace SourceMigration.Toml

/-- The entries of a table. -/
abbrev Entries := List (String × SettingValue)

/-- Something read from the front of a text, with the rest of the text. -/
abbrev Reading (α : Type) := Option (α × List Char)

/-! ## Between values -/

/-- The blanks within a line. -/
def isGap (c : Char) : Bool := c == ' ' || c == '\t'

/-- The characters without a form of their own; none but the tab may stand in a line. -/
def isControl (c : Char) : Bool := c.toNat < 32 || c.toNat == 127

/-- What may not stand in a comment or in a text on one line. -/
def isIllegal (c : Char) : Bool := isControl c && c != '\t'

/-- What may not stand in a text on several lines. -/
def isIllegalInLines (c : Char) : Bool := isIllegal c && c != '\n'

/-- Leaves out the blanks at the front. -/
def skipGap (cs : List Char) : List Char := cs.dropWhile isGap

/-- Leaves out a comment at the front, up to the end of its line. -/
def skipComment? (cs : List Char) : Option (List Char) :=
  match cs with
  | '#' :: rest =>
    if (rest.takeWhile (· != '\n')).any isIllegal then none
    else some (rest.dropWhile (· != '\n'))
  | _ => some cs

/-- Leaves out blanks, line ends and comments. -/
def skipLayout? : Nat → List Char → Option (List Char)
  | 0, cs => some cs
  | fuel + 1, cs =>
    let rest := cs.dropWhile fun c => isGap c || c == '\n'
    match rest with
    | '#' :: _ => (skipComment? rest).bind (skipLayout? fuel)
    | _ => some rest

/-! ## Texts -/

/-- The value of a digit to base sixteen. -/
def hexValue? (c : Char) : Option Nat :=
  if c.isDigit then some (c.toNat - '0'.toNat)
  else if 'a' ≤ c ∧ c ≤ 'f' then some (c.toNat - 'a'.toNat + 10)
  else if 'A' ≤ c ∧ c ≤ 'F' then some (c.toNat - 'A'.toNat + 10)
  else none

/-- The character with a code of so many digits. -/
def codePoint? (width : Nat) (cs : List Char) : Reading Char :=
  let ds := (cs.take width).filterMap hexValue?
  let n := ds.foldl (fun n d => 16 * n + d) 0
  if ds.length = width ∧ n.isValidChar then some (Char.ofNat n, cs.drop width) else none

/-- The characters that a letter after a backslash stands for. -/
def escapes : List (Char × Char) :=
  [('b', '\x08'), ('t', '\t'), ('n', '\n'), ('f', '\x0c'), ('r', '\r'), ('"', '"'), ('\\', '\\')]

/-- What follows a backslash. On several lines a backslash at the end of a line leaves out the line
end and all blanks after it. -/
def escape? (inLines : Bool) : List Char → Reading (List Char)
  | 'u' :: cs => (codePoint? 4 cs).map fun (c, rest) => ([c], rest)
  | 'U' :: cs => (codePoint? 8 cs).map fun (c, rest) => ([c], rest)
  | c :: cs =>
    if inLines && (isGap c || c == '\n') then
      -- The rest of the line must be blank.
      match skipGap (c :: cs) with
      | [] => some ([], [])
      | '\n' :: rest => some ([], rest.dropWhile fun c => isGap c || c == '\n')
      | _ => none
    else (escapes.lookup c).map fun e => ([e], cs)
  | [] => none

/-- A text between double quotes, after the opening ones. -/
def quoted? (inLines : Bool) : Nat → List Char → Reading (List Char)
  | 0, _ => none
  | fuel + 1, cs =>
    let more (front : List Char) (rest : List Char) : Reading (List Char) :=
      (quoted? inLines fuel rest).map fun (text, rest) => (front ++ text, rest)
    match cs with
    | [] => none
    | '"' :: rest =>
      if !inLines then some ([], rest)
      else
        match rest with
        -- Quotes after these three may still belong to the text; `withQuotes` sees to them.
        | '"' :: '"' :: rest => some ([], rest)
        | _ => more ['"'] rest
    | '\\' :: rest => (escape? inLines rest).bind fun (front, rest) => more front rest
    | c :: rest =>
      if (if inLines then isIllegalInLines c else isIllegal c) then none else more [c] rest

/-- A text between single quotes on one line, after the opening one. -/
def literal? (cs : List Char) : Reading (List Char) :=
  let text := cs.takeWhile (· != '\'')
  match cs.dropWhile (· != '\'') with
  | _ :: rest => if text.any isIllegal then none else some (text, rest)
  | [] => none

/-- A text between three single quotes, after the opening ones. -/
def literalLines? : List Char → Reading (List Char)
  | [] => none
  | '\'' :: '\'' :: '\'' :: rest => some ([], rest)
  | c :: rest =>
    if isIllegalInLines c then none
    else (literalLines? rest).map fun (text, rest) => (c :: text, rest)

/-- Up to two further quotes after the closing ones belong to the text. -/
def withQuotes (quote : Char) (text : List Char) : List Char → List Char × List Char
  | a :: b :: rest =>
    if a == quote then
      if b == quote then (text ++ [quote, quote], rest) else (text ++ [quote], b :: rest)
    else (text, a :: b :: rest)
  | [a] => if a == quote then (text ++ [quote], []) else (text, [a])
  | [] => (text, [])

/-- A line end right after the opening quotes is left out. -/
def dropFirstLineEnd : List Char → List Char
  | '\n' :: cs => cs
  | cs => cs

/-- A text in any of its four forms. -/
def text? (cs : List Char) : Reading (List Char) :=
  match cs with
  | '"' :: '"' :: '"' :: rest =>
    (quoted? true (rest.length + 1) (dropFirstLineEnd rest)).map fun (text, rest) =>
      withQuotes '"' text rest
  | '"' :: rest => quoted? false (rest.length + 1) rest
  | '\'' :: '\'' :: '\'' :: rest =>
    (literalLines? (dropFirstLineEnd rest)).map fun (text, rest) => withQuotes '\'' text rest
  | '\'' :: rest => literal? rest
  | _ => none

/-! ## Keys -/

/-- The characters of a key without quotes. -/
def isBare (c : Char) : Bool := c.isAlphanum || c == '-' || c == '_'

/-- One part of a key, always on one line. -/
def keyPart? (cs : List Char) : Reading String :=
  match cs with
  | '"' :: rest => (quoted? false (rest.length + 1) rest).map fun (k, rest) => (String.ofList k, rest)
  | '\'' :: rest => (literal? rest).map fun (k, rest) => (String.ofList k, rest)
  | _ =>
    let part := cs.takeWhile isBare
    if part.isEmpty then none else some (String.ofList part, cs.dropWhile isBare)

/-- The parts of a dotted key, and the blanks after it. -/
def key? : Nat → List Char → Reading (List String)
  | 0, _ => none
  | fuel + 1, cs =>
    (keyPart? cs).bind fun (part, rest) =>
      match skipGap rest with
      | '.' :: rest => (key? fuel (skipGap rest)).map fun (parts, rest) => (part :: parts, rest)
      | rest => some ([part], rest)

/-! ## Numbers -/

/-- Digits with single low lines between them; the first must stand at the front. -/
def digitRun (digit : Char → Bool) : List Char → List Char × List Char
  | '_' :: c :: cs =>
    if digit c then
      let (ds, rest) := digitRun digit cs
      (c :: ds, rest)
    else ([], '_' :: c :: cs)
  | c :: cs =>
    if digit c then
      let (ds, rest) := digitRun digit cs
      (c :: ds, rest)
    else ([], c :: cs)
  | [] => ([], [])

/-- The same, unless no digit stands at the front. -/
def digitRun? (digit : Char → Bool) (cs : List Char) : Reading (List Char) :=
  if cs.head?.any digit then some (digitRun digit cs) else none

/-- The number that digits of a base spell. -/
def ofBase (base : Nat) (ds : List Char) : Nat :=
  ds.foldl (fun n d => base * n + (hexValue? d).getD 0) 0

/-- A whole number in a base named by a letter. -/
def based? : List Char → Reading SettingValue
  | '0' :: b :: cs =>
    let read (base : Nat) (digit : Char → Bool) : Reading SettingValue :=
      (digitRun? digit cs).map fun (ds, rest) => (.whole (ofBase base ds), rest)
    if b == 'x' then read 16 fun c => (hexValue? c).isSome
    else if b == 'o' then read 8 fun c => '0' ≤ c && c ≤ '7'
    else if b == 'b' then read 2 fun c => c == '0' || c == '1'
    else none
  | _ => none

/-- A sign, and whether it was a minus. -/
def sign : List Char → Bool × List Char
  | '-' :: cs => (true, cs)
  | '+' :: cs => (false, cs)
  | cs => (false, cs)

/-- A decimal number, whole or with a point or an exponent. Nothing follows a leading zero. -/
def decimal? (cs : List Char) : Option (SettingValue × List Char) := do
  let (isNegative, cs) := sign cs
  let (wholeDigits, cs) ←
    match cs with
    | '0' :: rest => some (['0'], rest)
    | _ => digitRun? (fun c => '0' ≤ c && c ≤ '9') cs
  let (fractionDigits, afterPoint) :=
    match cs with
    | '.' :: rest => (digitRun? Char.isDigit rest).getD ([], cs)
    | _ => ([], cs)
  let (exponent, rest) : Option Int × List Char :=
    match afterPoint with
    | e :: rest =>
      if e == 'e' || e == 'E' then
        let (down, rest) := sign rest
        match digitRun? Char.isDigit rest with
        | some (ds, rest) =>
          let n : Int := Numeral.ofDigits ds
          (some (if down then -n else n), rest)
        | none => (none, afterPoint)
      else (none, afterPoint)
    | [] => (none, [])
  let size : Int := Numeral.ofDigits (wholeDigits ++ fractionDigits)
  let signed := if isNegative then -size else size
  if fractionDigits.isEmpty && exponent.isNone then some (.whole signed, rest)
  else some (.fraction signed (exponent.getD 0 - fractionDigits.length), rest)

/-- An infinity or what is no number, with a sign if wanted. -/
def special? (cs : List Char) : Reading SettingValue :=
  match (sign cs).2 with
  | 'i' :: 'n' :: 'f' :: rest => some (.notFinite, rest)
  | 'n' :: 'a' :: 'n' :: rest => some (.notFinite, rest)
  | _ => none

/-! ## Dates and times -/

/-- Two digits that spell a number in a range. -/
def pair? (low high : Nat) : List Char → Reading Nat
  | a :: b :: cs =>
    let n := Numeral.ofDigits [a, b]
    if a.isDigit && b.isDigit && low ≤ n && n ≤ high then some (n, cs) else none
  | _ => none

/-- Leaves out one character that must stand at the front. -/
def expect? (c : Char) : List Char → Option (List Char)
  | d :: cs => if d == c then some cs else none
  | [] => none

/-- The days of a month. -/
def daysIn (year month : Nat) : Nat :=
  if month = 2 then if year % 4 = 0 ∧ (year % 100 ≠ 0 ∨ year % 400 = 0) then 29 else 28
  else if month = 4 ∨ month = 6 ∨ month = 9 ∨ month = 11 then 30
  else 31

/-- A time of day; only the rest of the text matters. -/
def time? (cs : List Char) : Option (List Char) := do
  let (_, cs) ← pair? 0 23 cs
  let cs ← expect? ':' cs
  let (_, cs) ← pair? 0 59 cs
  let cs ← expect? ':' cs
  let (_, cs) ← pair? 0 59 cs
  match cs with
  | '.' :: c :: rest => if c.isDigit then some (rest.dropWhile Char.isDigit) else some cs
  | _ => some cs

/-- A distance from universal time, if one stands here. -/
def skipOffset (cs : List Char) : List Char :=
  match cs with
  | 'Z' :: rest => rest
  | 'z' :: rest => rest
  | s :: rest =>
    if s == '+' || s == '-' then
      match (do
        let (_, rest) ← pair? 0 23 rest
        let rest ← expect? ':' rest
        let (_, rest) ← pair? 0 59 rest
        some rest : Option (List Char)) with
      | some rest => rest
      | none => cs
    else cs
  | [] => []

/-- A date as it is written: its year, month and day. -/
def date? (cs : List Char) : Option ((Nat × Nat × Nat) × List Char) := do
  let (century, cs) ← pair? 0 99 cs
  let (year, cs) ← pair? 0 99 cs
  let cs ← expect? '-' cs
  let (month, cs) ← pair? 1 12 cs
  let cs ← expect? '-' cs
  let (day, cs) ← pair? 1 31 cs
  some ((100 * century + year, month, day), cs)

/-- Whether a date is in the calendar. -/
def isDate (year month day : Nat) : Bool := 1 ≤ year && day ≤ daysIn year month

/-- What may stand between a date and a time. -/
def skipDateMark? : List Char → Option (List Char)
  | c :: cs => if c == 'T' || c == 't' || c == ' ' then some cs else none
  | [] => none

/-- A date, with a time if one follows, or a time alone. The outer option tells whether something
of that form stands here, the inner one whether it exists. -/
def moment? (cs : List Char) : Option (Reading SettingValue) :=
  match date? cs with
  | some ((year, month, day), rest) =>
    let rest :=
      match (skipDateMark? rest).bind time? with
      | some rest => skipOffset rest
      | none => rest
    -- A date out of the calendar is no number either: the document is refused.
    some (if isDate year month day then some (.moment, rest) else none)
  | none => (time? cs).map fun rest => some (.moment, rest)

/-! ## Tables -/

/-- Changes the entries of the table at a path, which is created where nothing stands. If wanted,
the path leads through the last table of a list. -/
def inTable (throughLists : Bool) (f : Entries → Option Entries) :
    List String → Entries → Option Entries
  | [], es => f es
  | k :: ks, es =>
    let put (v : SettingValue) : Entries := es.map fun e => if e.1 == k then (k, v) else e
    match es.lookup k with
    | none => (inTable throughLists f ks []).map fun t => es ++ [(k, .table t)]
    | some (.table t) => (inTable throughLists f ks t).map fun t => put (.table t)
    | some (.list vs) =>
      match throughLists, vs.getLast? with
      | true, some (.table t) =>
        (inTable throughLists f ks t).map fun t => put (.list (vs.dropLast ++ [.table t]))
      | _, _ => none
    | some _ => none

/-- Adds an entry to a table that has none of that key. -/
def addEntry (k : String) (v : SettingValue) (es : Entries) : Option Entries :=
  if (es.lookup k).isSome then none else some (es ++ [(k, v)])

/-- Adds an empty table to the list under a key. -/
def addTable (k : String) (es : Entries) : Option Entries :=
  match es.lookup k with
  | none => some (es ++ [(k, .list [.table []])])
  | some (.list vs) =>
    some (es.map fun e => if e.1 == k then (k, .list (vs ++ [.table []])) else e)
  | some _ => none

/-- Whether a value is written in one piece of which nothing may be changed later. -/
def isCompound : SettingValue → Bool
  | .list _ => true
  | .table _ => true
  | _ => false

/-- Whether a key lies at or below one of these. -/
def isWithin (keys : List (List String)) (key : List String) : Bool :=
  !key.isEmpty && keys.any (·.isPrefixOf key)

/-! ## Values -/

mutual

/-- A value. -/
def value? : Nat → List Char → Reading SettingValue
  | 0, _ => none
  | fuel + 1, cs =>
    match cs with
    | '"' :: _ => (text? cs).map fun (t, rest) => (.text (String.ofList t), rest)
    | '\'' :: _ => (text? cs).map fun (t, rest) => (.text (String.ofList t), rest)
    | 't' :: 'r' :: 'u' :: 'e' :: rest => some (.flag true, rest)
    | 'f' :: 'a' :: 'l' :: 's' :: 'e' :: rest => some (.flag false, rest)
    | '[' :: rest =>
      (skipLayout? (rest.length + 1) rest).bind fun rest =>
        (items? fuel rest).map fun (vs, rest) => (.list vs, rest)
    | '\x7b' :: rest =>
      match skipGap rest with
      | '\x7d' :: rest => some (.table [], rest)
      | rest => (pairs? fuel [] [] rest).map fun (es, rest) => (.table es, rest)
    | _ =>
      -- A date also begins with digits, so it is looked for before a number.
      match moment? cs with
      | some reading => reading
      -- The zero before the letter of a base would be a decimal number too.
      | none => (based? cs <|> decimal? cs) <|> special? cs

/-- The values of a list, after its opening bracket and the layout behind it. -/
def items? : Nat → List Char → Option (List SettingValue × List Char)
  | 0, _ => none
  | fuel + 1, cs =>
    match cs with
    | ']' :: rest => some ([], rest)
    | _ => do
      let (v, rest) ← value? fuel cs
      -- A comma after the last value is allowed, and line ends anywhere.
      match ← skipLayout? (rest.length + 1) rest with
      | ']' :: rest => some ([v], rest)
      | ',' :: rest =>
        let rest ← skipLayout? (rest.length + 1) rest
        let (vs, rest) ← items? fuel rest
        some (v :: vs, rest)
      | _ => none

/-- The entries of a table written on one line, after its opening brace; `closed` holds the keys
whose values were written in one piece. -/
def pairs? : Nat → List (List String) → Entries → List Char → Option (Entries × List Char)
  | 0, _, _, _ => none
  | fuel + 1, closed, es, cs => do
    let (key, v, rest) ← keyValue? fuel cs
    if isWithin closed key then none
    else
      let es ← inTable false (addEntry (key.getLastD "") v) key.dropLast es
      match skipGap rest with
      | '\x7d' :: rest => some (es, rest)
      | ',' :: rest =>
        pairs? fuel (if isCompound v then key :: closed else closed) es (skipGap rest)
      | _ => none

/-- A key and its value. -/
def keyValue? : Nat → List Char → Option (List String × SettingValue × List Char)
  | 0, _ => none
  | fuel + 1, cs => do
    let (key, rest) ← key? (cs.length + 1) cs
    let rest ← expect? '=' rest
    let (v, rest) ← value? fuel (skipGap rest)
    some (key, v, rest)

end

/-! ## Documents -/

/-- What was done to keys, each given in full. -/
structure Marks where
  /-- Tables that no header may open again. -/
  opened : List (List String) := []
  /-- Tables that dotted keys have built since the last header; they count as opened after it. -/
  built : List (List String) := []
  /-- Values written in one piece. -/
  closed : List (List String) := []

/-- A document read in part. -/
structure Draft where
  entries : Entries := []
  /-- The table that the last header opened. -/
  header : List String := []
  marks : Marks := {}

namespace Draft

/-- At a header, what dotted keys have built counts as opened. -/
def settle (d : Draft) : Draft :=
  { d with marks := { d.marks with opened := d.marks.opened ++ d.marks.built, built := [] } }

/-- Opens a table. -/
def openTable (d : Draft) (key : List String) : Option Draft :=
  let m := d.marks
  if m.opened.contains key || isWithin m.closed key then none
  else
    (inTable true some key d.entries).map fun entries =>
      ⟨entries, key, { m with opened := key :: m.opened }⟩

/-- Opens a further table of a list, in which all keys are free again. -/
def openItem (d : Draft) (key : List String) : Option Draft :=
  let m := d.marks
  if isWithin m.closed key then none
  else
    -- What was marked below the list belongs to the table before.
    let free := fun keys : List (List String) => keys.filter fun k => !key.isPrefixOf k
    (inTable true (addTable (key.getLastD "")) key.dropLast d.entries).map fun entries =>
      ⟨entries, key, { m with opened := key :: free m.opened, closed := free m.closed }⟩

/-- Gives a value to a key of the open table. -/
def set (d : Draft) (key : List String) (v : SettingValue) : Option Draft :=
  let m := d.marks
  -- The tables that the dotted key leads through.
  let inner := (List.range (key.length - 1)).map fun i => d.header ++ key.take (i + 1)
  let table := d.header ++ key.dropLast
  if inner.any m.opened.contains || isWithin m.closed table then none
  else
    (inTable true (addEntry (key.getLastD "") v) table d.entries).map fun entries =>
      { d with
        entries
        marks := { m with
          built := m.built ++ inner
          closed := if isCompound v then (d.header ++ key) :: m.closed else m.closed } }

end Draft

/-- One line: a header, a key with its value, or nothing. -/
def line? (d : Draft) (cs : List Char) : Option (Draft × List Char) :=
  match cs with
  | '[' :: '[' :: rest => do
    let (key, rest) ← key? (rest.length + 1) (skipGap rest)
    let d ← d.settle.openItem key
    some (d, ← (expect? ']' rest).bind (expect? ']'))
  | '[' :: rest => do
    let (key, rest) ← key? (rest.length + 1) (skipGap rest)
    let d ← d.settle.openTable key
    some (d, ← expect? ']' rest)
  | '#' :: _ => some (d, cs)
  | _ => do
    let (key, v, rest) ← keyValue? (2 * cs.length + 2) cs
    some (← d.set key v, rest)

/-- The lines of a document; every step takes a line, so the length of the text is fuel enough. -/
def lines? : Nat → Draft → List Char → Option Draft
  | 0, _, _ => none
  | fuel + 1, d, cs =>
    match skipGap cs with
    | [] => some d
    | '\n' :: rest => lines? fuel d rest
    | cs => do
      let (d, rest) ← line? d cs
      match ← skipComment? (skipGap rest) with
      | [] => some d
      | '\n' :: rest => lines? fuel d rest
      | _ => none

/-- A carriage return before a line feed belongs to the line end. -/
def joinLineEnds : List Char → List Char
  | '\r' :: '\n' :: cs => '\n' :: joinLineEnds cs
  | c :: cs => c :: joinLineEnds cs
  | [] => []

/-- The top table of a document, if the document is one. -/
def ofDocument? (text : String) : Option Entries :=
  let cs := joinLineEnds text.toList
  (lines? (cs.length + 1) {} cs).map Draft.entries

end SourceMigration.Toml
