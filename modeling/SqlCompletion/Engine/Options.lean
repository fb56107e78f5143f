import SqlCompletion.Catalog.Basic
import SqlCompletion.Server.Dialect
set_option autoImplicit false

/-!
# Options

How completions are made: the case of keywords, the server the text is written for, the known
tables, and what to do with a caret behind the end of the text.
-/

namespace SqlCompletion

/-- What is done with a caret behind the end of the text. -/
inductive OffsetPolicy where
  /-- It is taken to be at the end. -/
  | clamp
  /-- The request is refused. -/
  | strict
  deriving DecidableEq, Repr, Inhabited

/-- How completions are made. -/
structure Options where
  /-- Keywords are offered in upper case, and otherwise in lower case. -/
  uppercaseKeywords : Bool := true
  dialect : Dialect := {}
  catalog? : Option Catalog := none
  offsetPolicy : OffsetPolicy := .clamp
  deriving DecidableEq, Repr, Inhabited

namespace Options

/-- The options with keywords in upper case, or in lower case. -/
def withUppercase (o : Options) (uppercase : Bool) : Options :=
  { o with uppercaseKeywords := uppercase }

/-- The options for another server. -/
def withDialect (o : Options) (d : Dialect) : Options := { o with dialect := d }

/-- The options with a catalog. -/
def withCatalog (o : Options) (c : Catalog) : Options := { o with catalog? := some c }

/-- The options with another policy. -/
def withPolicy (o : Options) (p : OffsetPolicy) : Options := { o with offsetPolicy := p }

end Options

end SqlCompletion
