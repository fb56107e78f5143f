import SqlCompletion.Server.Version
import SqlCompletion.Server.Mode
set_option autoImplicit false

/-!
# Dialects

What is known about the server that a text is written for: its version, which opens and closes
parts of the grammar, and its SQL modes, which change how the text is read.
-/

namespace SqlCompletion

/-- The server that a text is written for. -/
structure Dialect where
  version : Version := .standard
  modes : List Mode := []
  deriving DecidableEq, Repr, Inhabited

namespace Dialect

/-- The dialect that is assumed when none is given. -/
def standard : Dialect := {}

/-- The mode is switched on. -/
def has (d : Dialect) (m : Mode) : Bool := d.modes.contains m

/-- The dialect at another version. -/
def withVersion (d : Dialect) (v : Version) : Dialect := { d with version := v }

/-- The dialect with a mode switched on; a mode that is on already keeps its place. -/
def withMode (d : Dialect) (m : Mode) : Dialect :=
  if d.has m then d else { d with modes := d.modes ++ [m] }

end Dialect

end SqlCompletion
