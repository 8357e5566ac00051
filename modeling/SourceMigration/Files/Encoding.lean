import SourceMigration.Files.Fault

/-!
# SourceMigration — encodings of texts

Reading a text from bytes and writing it as bytes. Bytes that are no text are refused at the
first place where they could not be continued to one, with the bytes up to there that belong
to an unfinished character.
-/

namespace SourceMigration

/-- The encodings in which files can be read and written. -/
inductive Encoding where
  | utf8
  /-- The same after a mark of byte order, which is written and may be missing when read. -/
  | markedUtf8
  | ascii
  /-- Every byte is the character of its number. -/
  | latin1
  /-- The same, with printable characters in place of the control characters from 128 to 159. -/
  | windows1252
  deriving DecidableEq, Repr

namespace Encoding

/-! ## Names -/

/-- The name of an encoding in the form in which names are looked up: small letters and digits,
with a low line for all that stands between them. -/
def plainName (name : String) : String :=
  let step (state : List Char × Bool) (c : Char) : List Char × Bool :=
    let (out, gap) := state
    if c.isAlphanum || c == '.' then
      ((if gap && !out.isEmpty then out ++ ['_'] else out) ++ [c.toLower], false)
    else (out, true)
  String.ofList (name.toList.foldl step ([], false)).1

def utf8Names : List String := ["utf_8", "utf8", "u8", "utf", "utf8_ucs2", "utf8_ucs4", "cp65001"]

def asciiNames : List String :=
  ["ascii", "646", "ansi_x3.4_1968", "ansi_x3_4_1968", "ansi_x3.4_1986", "cp367", "csascii",
    "ibm367", "iso646_us", "iso_646.irv_1991", "iso_ir_6", "us", "us_ascii"]

def latin1Names : List String :=
  ["latin_1", "8859", "cp819", "csisolatin1", "ibm819", "iso8859", "iso8859_1", "iso_8859_1",
    "iso_8859_1_1987", "iso_ir_100", "l1", "latin", "latin1"]

def windows1252Names : List String := ["cp1252", "1252", "windows_1252"]

/-- The encoding of a name. -/
def ofName? (name : String) : Option Encoding :=
  let plain := plainName name
  if utf8Names.contains plain then some .utf8
  else if plain = "utf_8_sig" then some .markedUtf8
  else if asciiNames.contains plain then some .ascii
  else if latin1Names.contains plain then some .latin1
  else if windows1252Names.contains plain then some .windows1252
  else none

/-! ## Reading -/

/-- The bytes that may follow the first byte of a character of several bytes: how many, and the
range of the first of them. Those after it range from 128 to 191. -/
def continuation? (b : Nat) : Option (Nat × Nat × Nat) :=
  if 0xC2 ≤ b ∧ b ≤ 0xDF then some (1, 0x80, 0xBF)
  else if b = 0xE0 then some (2, 0xA0, 0xBF)
  else if b = 0xED then some (2, 0x80, 0x9F)
  else if 0xE1 ≤ b ∧ b ≤ 0xEF then some (2, 0x80, 0xBF)
  else if b = 0xF0 then some (3, 0x90, 0xBF)
  else if 0xF1 ≤ b ∧ b ≤ 0xF3 then some (3, 0x80, 0xBF)
  else if b = 0xF4 then some (3, 0x80, 0x8F)
  else none

/-- The number of bytes at the front that can follow the first byte of a character: the first in
a range of its own, and no more than `count`. -/
def followers (count low high : Nat) : List UInt8 → Nat
  | [] => 0
  | b :: bs =>
    match count with
    | 0 => 0
    | count + 1 =>
      if low ≤ b.toNat ∧ b.toNat ≤ high then followers count 0x80 0xBF bs + 1 else 0

/-- The character of a first byte and those that follow it. -/
def characterOf (first : Nat) (rest : List UInt8) : Char :=
  let lead := if first < 0xE0 then first - 0xC0 else if first < 0xF0 then first - 0xE0
    else first - 0xF0
  Char.ofNat (rest.foldl (fun n b => 64 * n + (b.toNat - 0x80)) lead)

/-- The characters of bytes that begin at a position. Every step takes at least one byte, so the
number of bytes is fuel enough. -/
def decodeUtf8From : Nat → Nat → List UInt8 → Except DecodeFault (List Char)
  | 0, _, _ => .ok []
  | _, _, [] => .ok []
  | fuel + 1, pos, b :: bs =>
    let fault (more : Nat) (reason : String) : Except DecodeFault (List Char) :=
      .error ⟨"utf-8", b.toNat, pos, pos + more, reason⟩
    if b.toNat < 0x80 then (decodeUtf8From fuel (pos + 1) bs).map (Char.ofNat b.toNat :: ·)
    else
      match continuation? b.toNat with
      | none => fault 0 "invalid start byte"
      | some (count, low, high) =>
        let found := followers count low high bs
        if found = count then
          (decodeUtf8From fuel (pos + 1 + count) (bs.drop count)).map
            (characterOf b.toNat (bs.take count) :: ·)
        else if found = bs.length then fault found "unexpected end of data"
        else fault found "invalid continuation byte"

/-- The characters of bytes below 128 that begin at a position. -/
def decodeAsciiFrom : Nat → List UInt8 → Except DecodeFault (List Char)
  | _, [] => .ok []
  | pos, b :: bs =>
    if b.toNat < 0x80 then (decodeAsciiFrom (pos + 1) bs).map (Char.ofNat b.toNat :: ·)
    else .error ⟨"ascii", b.toNat, pos, pos, "ordinal not in range(128)"⟩

/-- The mark of byte order at the front of a text. -/
def utf8Mark : List UInt8 := [0xEF, 0xBB, 0xBF]

/-- The bytes after the mark of byte order, if it is there. A file that ends within the mark is
empty. -/
def afterMark (bs : List UInt8) : List UInt8 :=
  if utf8Mark.isPrefixOf bs || bs.isPrefixOf utf8Mark then bs.drop 3 else bs

/-- The characters from 128 to 159 under Windows-1252; five of the numbers have none. -/
def windows1252Chart : List (Nat × Char) :=
  [(0x80, '\u20ac'), (0x82, '\u201a'), (0x83, '\u0192'), (0x84, '\u201e'), (0x85, '\u2026'),
    (0x86, '\u2020'), (0x87, '\u2021'), (0x88, '\u02c6'), (0x89, '\u2030'), (0x8A, '\u0160'),
    (0x8B, '\u2039'), (0x8C, '\u0152'), (0x8E, '\u017d'), (0x91, '\u2018'), (0x92, '\u2019'),
    (0x93, '\u201c'), (0x94, '\u201d'), (0x95, '\u2022'), (0x96, '\u2013'), (0x97, '\u2014'),
    (0x98, '\u02dc'), (0x99, '\u2122'), (0x9A, '\u0161'), (0x9B, '\u203a'), (0x9C, '\u0153'),
    (0x9E, '\u017e'), (0x9F, '\u0178')]

/-- The character of a byte under Windows-1252, if it has one. -/
def windows1252Char? (b : Nat) : Option Char :=
  if 0x80 ≤ b ∧ b ≤ 0x9F then windows1252Chart.lookup b else some (Char.ofNat b)

/-- The characters under Windows-1252 of bytes that begin at a position. -/
def decodeWindows1252From : Nat → List UInt8 → Except DecodeFault (List Char)
  | _, [] => .ok []
  | pos, b :: bs =>
    match windows1252Char? b.toNat with
    | some c => (decodeWindows1252From (pos + 1) bs).map (c :: ·)
    | none => .error ⟨"charmap", b.toNat, pos, pos, "character maps to <undefined>"⟩

/-- Reads a text. -/
def decode (e : Encoding) (bs : List UInt8) : Except DecodeFault String :=
  match e with
  | .utf8 => (decodeUtf8From bs.length 0 bs).map String.ofList
  | .markedUtf8 =>
    -- Positions in a fault count from after the mark.
    let rest := afterMark bs
    (decodeUtf8From rest.length 0 rest).map String.ofList
  | .ascii => (decodeAsciiFrom 0 bs).map String.ofList
  | .latin1 => .ok (String.ofList (bs.map fun b => Char.ofNat b.toNat))
  | .windows1252 => (decodeWindows1252From 0 bs).map String.ofList

/-! ## Writing -/

/-- The byte of a character under Windows-1252. -/
def windows1252Byte (c : Char) : UInt8 :=
  match windows1252Chart.find? (·.2 == c) with
  | some (b, _) => b.toUInt8
  | none => c.toNat.toUInt8

/-- Writes a text. What is migrated adds no character beyond the smallest encoding, so a text read
in an encoding can be written in it. -/
def encode (e : Encoding) (s : String) : List UInt8 :=
  match e with
  | .utf8 => s.toList.flatMap String.utf8EncodeChar
  | .markedUtf8 => utf8Mark ++ s.toList.flatMap String.utf8EncodeChar
  | .ascii | .latin1 => s.toList.map fun c => c.toNat.toUInt8
  | .windows1252 => s.toList.map windows1252Byte

end Encoding

end SourceMigration
