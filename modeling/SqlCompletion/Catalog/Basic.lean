import SqlCompletion.Text.Casing
set_option autoImplicit false

/-!
# Catalogs

The tables and columns that are known, and how names of a text are compared with theirs.
-/

namespace SqlCompletion

/-- How names are compared. -/
inductive NameCase where
  /-- As they are written. -/
  | exact
  /-- In lower case. -/
  | lower
  /-- In upper case. -/
  | upper
  deriving DecidableEq, Repr, Inhabited

namespace NameCase

/-- The form of a name that is compared. -/
def normalize (c : NameCase) (name : String) : String :=
  match c with
  | exact => name
  | lower => Text.lower name
  | upper => Text.upper name

/-- The two names are the same. -/
def matchesName (c : NameCase) (left right : String) : Bool :=
  c.normalize left == c.normalize right

end NameCase

/-- A column of a known table. -/
structure Column where
  name : String
  dataType? : Option String := none
  deriving DecidableEq, Repr, Inhabited

/-- A known table. Without a schema it is found under every schema. -/
structure CatalogTable where
  schema? : Option String := none
  name : String
  columns : List Column := []
  deriving DecidableEq, Repr, Inhabited

/-- The known tables. -/
structure Catalog where
  nameCase : NameCase := .exact
  tables : List CatalogTable := []
  deriving DecidableEq, Repr, Inhabited

namespace Catalog

/-- The names of the tables, in order. -/
def tableNames (c : Catalog) : List String := c.tables.map CatalogTable.name

/-- The names are the same, if both sides give one. -/
def matchesSchema (c : Catalog) : (declared requested : Option String) → Bool
  | some declared, some requested => c.nameCase.matchesName declared requested
  | _, _ => true

/-- The first table of that name, in the schema if both sides name one. -/
def findTable? (c : Catalog) (name : String) (schema? : Option String) : Option CatalogTable :=
  c.tables.find? fun t =>
    c.nameCase.matchesName t.name name && c.matchesSchema t.schema? schema?

end Catalog

end SqlCompletion
