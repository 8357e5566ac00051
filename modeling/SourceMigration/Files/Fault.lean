import SourceMigration.Text.Quoted

/-!
# SourceMigration — what goes wrong with files

Why a file could not be read, decoded or written. Every fault has a kind, which a report may
put in front, and a wording.
-/

namespace SourceMigration

/-- Why bytes are not a text in some encoding. -/
structure DecodeFault where
  /-- The encoding, by its usual name. -/
  encoding : String
  /-- The first byte that is wrong, when it is the only one. -/
  byte : Nat
  /-- The positions of the first and the last byte that is wrong. -/
  first : Nat
  last : Nat
  reason : String
  deriving DecidableEq, Repr

/-- The wording of a fault. -/
def DecodeFault.message (f : DecodeFault) : String :=
  let place :=
    if f.first = f.last then
      "byte 0x" ++ String.ofList (Text.hexDigits 2 f.byte) ++ " in position " ++ toString f.first
    else "bytes in position " ++ toString f.first ++ "-" ++ toString f.last
  "'" ++ f.encoding ++ "' codec can't decode " ++ place ++ ": " ++ f.reason

/-- What goes wrong with a file. -/
inductive FileFault where
  | undecodable (why : DecodeFault)
  | unknownEncoding (name : String)
  | absent (path : String)
  | exists (path : String)
  | notDirectory (path : String)
  | isDirectory (path : String)
  deriving DecidableEq, Repr

namespace FileFault

/-- The name under which a kind of fault is reported. -/
def title : FileFault → String
  | .undecodable _ => "UnicodeDecodeError"
  | .unknownEncoding _ => "LookupError"
  | .absent _ => "FileNotFoundError"
  | .exists _ => "FileExistsError"
  | .notDirectory _ => "NotADirectoryError"
  | .isDirectory _ => "IsADirectoryError"

/-- The wording of a fault. -/
def message : FileFault → String
  | .undecodable why => why.message
  | .unknownEncoding name => "unknown encoding: " ++ name
  | .absent path => "[Errno 2] No such file or directory: " ++ Text.quoted path
  | .exists path => "[Errno 17] File exists: " ++ Text.quoted path
  | .notDirectory path => "[Errno 20] Not a directory: " ++ Text.quoted path
  | .isDirectory path => "[Errno 21] Is a directory: " ++ Text.quoted path

end FileFault

end SourceMigration
