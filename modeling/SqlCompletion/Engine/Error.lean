import SqlCompletion.Server.Version
set_option autoImplicit false

/-!
# Errors

Half-typed and broken texts are no errors: they only lead to fewer suggestions. Errors are for
requests that cannot be served and for values that cannot be read.
-/

namespace SqlCompletion

/-- Why a request is refused. -/
inductive Error where
  /-- The caret lies behind the end of the text. -/
  | offsetOutOfRange (offset length : Nat)
  /-- The text has more bytes than are accepted. -/
  | inputTooLarge (length limit : Nat)
  /-- The text is no server version. -/
  | invalidServerVersion (text : String)
  /-- The document is no catalog. -/
  | invalidCatalog
  deriving DecidableEq, Repr, Inhabited

/-- What is reported. -/
def Error.message : Error → String
  | offsetOutOfRange offset length =>
    "caret offset " ++ offset.repr ++ " is outside the text (length " ++ length.repr ++ ")"
  | inputTooLarge length limit =>
    "SQL exceeds maximum length of " ++ limit.repr ++ " bytes (" ++ length.repr ++
      " bytes provided)"
  | invalidServerVersion text =>
    "invalid server version '" ++ text ++ "', expected <major>.<minor>.<patch>"
  | invalidCatalog => "invalid schema catalog"

/-- Reads a server version, with the text in the error if it is none. -/
def Version.parse (text : String) : Except Error Version :=
  match Version.parse? text with
  | some v => .ok v
  | none => .error (.invalidServerVersion text)

end SqlCompletion
