/-!
# SourceMigration — values of settings

What a settings file, or an argument that overrides it, can give for a setting: the values of
a data format, before anything is known about the setting they are meant for.
-/

namespace SourceMigration

/-- A value as it stands in a settings file. -/
inductive SettingValue where
  | null
  | flag (b : Bool)
  | whole (n : Int)
  /-- The fraction `mantissa · 10 ^ exponent`. -/
  | fraction (mantissa exponent : Int)
  /-- An infinity, or what is no number at all. -/
  | notFinite
  | text (s : String)
  /-- A date, a time of day or both. -/
  | moment
  | list (values : List SettingValue)
  | table (entries : List (String × SettingValue))
  deriving Inhabited

namespace SettingValue

/-- Whether an argument says anything: zero, false and what is empty do not. -/
def isGiven : SettingValue → Bool
  | .null => false
  | .flag b => b
  | .whole n => n != 0
  | .fraction m _ => m != 0
  | .notFinite => true
  | .text s => !s.isEmpty
  | .moment => true
  | .list vs => !vs.isEmpty
  | .table es => !es.isEmpty

/-- The parts of a value that has parts: the characters of a text, the values of a list, the keys
of a table. -/
def parts? : SettingValue → Option (List SettingValue)
  | .text s => some (s.toList.map fun c => .text (String.singleton c))
  | .list vs => some vs
  | .table es => some (es.map fun e => .text e.1)
  | _ => none

end SettingValue

end SourceMigration
