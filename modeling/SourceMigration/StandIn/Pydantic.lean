import SourceMigration.Settings.Basic
import SourceMigration.Text.Numeral

/-!
# SourceMigration — a library that stands in for the validation of settings

Entries that name no setting are left alone, and a setting without an entry has its default. All faults
are reported together, in the order of the settings and of the values in a list. A number is read
leniently: from a truth value, from a decimal fraction without a fractional part, and from a text that
spells a whole number.

## Results

* `texts_eq_ok_iff` — a list of texts is read from a list of texts and from nothing else.
-/

namespace SourceMigration.StandIn

/-! ## Whole numbers -/

/-- Why a value is no whole number. -/
inductive NotWhole where
  /-- The value is neither a number nor a text. -/
  | kind
  /-- The text spells no whole number. -/
  | spelling
  /-- The number has a fractional part. -/
  | fractional
  /-- The number is infinite, or none at all. -/
  | infinite
  /-- The number is too large to be told from its neighbours. -/
  | beyond
  deriving DecidableEq, Repr

namespace WholeNumber

/-- The blanks that may stand around the spelling of a number. -/
def isSpace (c : Char) : Bool := Text.isBlank c && !(0x1C ≤ c.toNat && c.toNat ≤ 0x1F)

/-- A numeral without its sign: digits, and after a point nothing but zeros. -/
def magnitude? (cs : List Char) : Option Nat :=
  let zeros := (cs.dropWhile (· != '.')).drop 1
  if zeros.all (· == '0') then (Numeral.digits? (cs.takeWhile (· != '.'))).map Numeral.ofDigits else none

/-- The whole number that a text spells, with blanks around it and one sign before it. -/
def ofText? (s : String) : Option Int :=
  let cs := s.toList.dropWhile isSpace
  match (cs.reverse.dropWhile isSpace).reverse with
  | '-' :: cs => (magnitude? cs).map fun n => -(n : Int)
  | '+' :: cs => (magnitude? cs).map fun n => (n : Int)
  | cs => (magnitude? cs).map fun n => (n : Int)

/-- The binary fraction nearest to a decimal one. Beyond these exponents it is infinite, or zero. -/
def nearest (mantissa exponent : Int) : Float :=
  let size := Float.ofScientific mantissa.natAbs (exponent < 0) (min exponent.natAbs 5000)
  if mantissa < 0 then -size else size

/-- The whole number that a decimal fraction is, once it is rounded to a binary one. -/
def ofFraction (mantissa exponent : Int) : Except NotWhole Int :=
  let f := nearest mantissa exponent
  if f.isInf then .error .infinite
  else if f.floor != f then .error .fractional
  else if f.abs < 9223372036854775808.0 then .ok f.toInt64.toInt
  else .error .beyond

end WholeNumber

/-- The whole number that a value stands for. -/
def toWhole : SettingValue → Except NotWhole Int
  | .whole n => .ok n
  | .flag b => .ok (if b then 1 else 0)
  | .fraction m e => WholeNumber.ofFraction m e
  | .notFinite => .error .infinite
  | .text s =>
    match WholeNumber.ofText? s with
    | some n => .ok n
    | none => .error .spelling
  | _ => .error .kind

/-! ## Values by their types -/

/-- What is wrong with a value or, if it is a list, at a position of it. -/
abbrev ValueFaults := List (Option Nat × SettingCause)

/-- The name under which it is reported why a value is no whole number. -/
def NotWhole.title : NotWhole → String
  | .kind => "int_type"
  | .spelling => "int_parsing"
  | .fractional => "int_from_float"
  | .infinite => "finite_number"
  | .beyond => "int_parsing_size"

/-- A text. -/
def readText : SettingValue → Except ValueFaults String
  | .text s => .ok s
  | _ => .error [(none, { title := "string_type" })]

/-- Texts, with what is wrong at the positions of others, counted from `i`. -/
def readEach : Nat → List SettingValue → Except ValueFaults (List String)
  | _, [] => .ok []
  | i, v :: vs =>
    match v, readEach (i + 1) vs with
    | .text s, .ok ss => .ok (s :: ss)
    | .text _, .error faults => .error faults
    | _, .ok _ => .error [(some i, { title := "string_type" })]
    | _, .error faults => .error ((some i, { title := "string_type" }) :: faults)

/-- A list of texts. -/
def readTexts : SettingValue → Except ValueFaults (List String)
  | .list vs => readEach 0 vs
  | _ => .error [(none, { title := "list_type" })]

/-- A whole number that is not below a bound. -/
def readWhole (atLeast : Int) (v : SettingValue) : Except ValueFaults Int :=
  match toWhole v with
  | .error why => .error [(none, { title := why.title })]
  | .ok n => if n < atLeast then .error [(none, { title := "greater_than_equal" })] else .ok n

/-- The value of a setting of some type; a default is not read. -/
def readValue (type : SettingType) (v : Option SettingValue) : Except ValueFaults ValidValue :=
  match type, v with
  | .text default _, none => .ok (.text default)
  | .text _ check, some v => do
    match check (← readText v) with
    | .ok s => .ok (.text s)
    | .error why => .error [(none, ⟨"value_error", some ("Value error, " ++ why)⟩)]
  | .texts default, none => .ok (.texts default)
  | .texts _, some v => (readTexts v).map .texts
  | .whole default _, none => .ok (.whole default)
  | .whole _ atLeast, some v => (readWhole atLeast v).map .whole

/-- The values of settings, or what is wrong with all of them. -/
def validate : List SettingDeclaration → List (String × SettingValue) →
    Except (List SettingFault) (String → ValidValue)
  | [], _ => .ok fun _ => default
  | d :: ds, entries =>
    match readValue d.type (entries.lookup d.name), validate ds entries with
    | .ok v, .ok value => .ok fun name => if name = d.name then v else value name
    | .ok _, .error faults => .error faults
    | .error faults, rest =>
      .error (faults.map (fun (index, cause) => ⟨d.name, index, cause⟩) ++
        match rest with
        | .ok _ => []
        | .error more => more)

scoped instance pydantic : Pydantic := ⟨validate⟩

/-! ## Lists of texts -/

theorem readEach_map (i : Nat) (texts : List String) :
    readEach i (texts.map .text) = .ok texts := by
  induction texts generalizing i with
  | nil => rfl
  | cons s ss ih => simp [readEach, ih]

theorem eq_map_of_readEach {i : Nat} {vs : List SettingValue} {texts : List String}
    (h : readEach i vs = .ok texts) : vs = texts.map .text := by
  induction vs generalizing i texts with
  | nil =>
    cases h
    rfl
  | cons v vs ih =>
    unfold readEach at h
    split at h
    · rename_i s ss hRest
      cases h
      rw [ih hRest]
      rfl
    all_goals cases h

/-- A list of texts is read from a list of texts and from nothing else. -/
theorem texts_eq_ok_iff {v : SettingValue} {texts : List String} :
    readTexts v = .ok texts ↔ v = .list (texts.map .text) := by
  constructor
  · intro h
    unfold readTexts at h
    split at h
    · rw [eq_map_of_readEach h]
    · cases h
  · rintro rfl
    exact readEach_map 0 texts

end SourceMigration.StandIn
