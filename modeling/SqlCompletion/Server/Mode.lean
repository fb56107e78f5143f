import SqlCompletion.Text.Blank
set_option autoImplicit false

/-!
# SQL modes

The server modes that change how a text is read. A `sql_mode` value is a comma-separated list of
names; modes that have no bearing on reading are passed over, and `ANSI` stands for the two
modes that it implies.
-/

namespace SqlCompletion

/-- A server mode that changes how a text is read. -/
inductive Mode where
  /-- `"text"` is a quoted name and not a string. -/
  | ansiQuotes
  /-- `NOT` binds tighter and is a terminal of its own, `NOT2`. -/
  | highNotPrecedence
  /-- `||` concatenates and does not mean a logical or. -/
  | pipesAsConcat
  deriving DecidableEq, Repr, Inhabited

namespace Mode

/-- Every mode. -/
def all : List Mode := [.ansiQuotes, .highNotPrecedence, .pipesAsConcat]

/-- The name in a `sql_mode` value. -/
def name : Mode → String
  | .ansiQuotes => "ANSI_QUOTES"
  | .highNotPrecedence => "HIGH_NOT_PRECEDENCE"
  | .pipesAsConcat => "PIPES_AS_CONCAT"

/-- The mode of exactly that name. -/
def ofName? (name : String) : Option Mode := all.find? fun m => m.name == name

theorem ofName?_name (m : Mode) : ofName? m.name = some m := by
  cases m <;> decide +kernel

/-- The modes that one name of a `sql_mode` value stands for. -/
def expand (name : String) : List Mode :=
  if name == "ANSI" then [.ansiQuotes, .pipesAsConcat] else (ofName? name).toList

/-- The parts of a text between commas. -/
def splitCommas : List Char → List (List Char)
  | [] => [[]]
  | c :: rest =>
    match splitCommas rest with
    | [] => [[]]
    | part :: parts => if c == ',' then [] :: part :: parts else (c :: part) :: parts

/-- Reads a `sql_mode` value: blanks around a name and the case of its letters A to Z do not
matter, and each mode is kept where it is first named. -/
def parseList (value : String) : List Mode :=
  ((splitCommas value.toList).flatMap fun part =>
    expand (String.ofList ((Text.trimBlanks part).map Char.toUpper))).eraseDups

end Mode

end SqlCompletion
