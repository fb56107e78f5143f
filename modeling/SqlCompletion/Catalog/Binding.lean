import SqlCompletion.Catalog.Basic
import SqlCompletion.Table.Reference
set_option autoImplicit false

/-!
# Binding references to a catalog

A table that the catalog does not know, and a catalog that is not there, bind to nothing.
-/

namespace SqlCompletion.Binding

/-- The names of all known tables. -/
def tableNames (catalog? : Option Catalog) : List String :=
  catalog?.elim [] Catalog.tableNames

/-- The first reference that names a table, with that name. -/
def firstTable? (references : List TableReference) : Option (String × TableReference) :=
  references.findSome? fun r => r.table?.map fun name => (name, r)

/-- The known table that the first reference to a table means. -/
def boundTable? (catalog? : Option Catalog) (references : List TableReference) :
    Option CatalogTable := do
  let catalog ← catalog?
  let (name, r) ← firstTable? references
  catalog.findTable? name r.schemaName?

/-- The columns of the first table that is referred to. -/
def columnNames (catalog? : Option Catalog) (references : List TableReference) : List String :=
  (boundTable? catalog? references).elim [] fun t => t.columns.map Column.name

end SqlCompletion.Binding
