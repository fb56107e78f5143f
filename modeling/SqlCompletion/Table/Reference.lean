import SqlCompletion.Text.Span
set_option autoImplicit false

/-!
# References to tables

A table, or a schema, that a statement names, with the place of every name in the text. Names
are held without their quotes.
-/

namespace SqlCompletion

/-- What a reference names. -/
inductive ReferenceKind where
  | table
  | schema
  deriving DecidableEq, Repr, Inhabited

/-- A name and the place where it is written. -/
structure NameAt where
  name : String
  span : Span
  deriving DecidableEq, Repr, Inhabited

/-- A table or a schema that a statement names. -/
structure TableReference where
  kind : ReferenceKind
  table? : Option String := none
  /-- The place of the name. -/
  span : Span
  alias? : Option NameAt := none
  schema? : Option NameAt := none
  deriving DecidableEq, Repr, Inhabited

/-- The name moved right in the text. -/
def NameAt.shift (n : NameAt) (delta : Nat) : NameAt := { n with span := n.span.shift delta }

namespace TableReference

/-- A reference to a table, in a schema if one is named. -/
def ofTable (name : NameAt) (schema? : Option NameAt) : TableReference :=
  { kind := .table, table? := some name.name, span := name.span, schema? := schema? }

/-- A reference to a schema alone. -/
def ofSchema (schema : NameAt) : TableReference :=
  { kind := .schema, span := schema.span, schema? := some schema }

/-- The name of the schema. -/
def schemaName? (r : TableReference) : Option String := r.schema?.map NameAt.name

/-- The alias. -/
def aliasName? (r : TableReference) : Option String := r.alias?.map NameAt.name

/-- The reference with all its places moved right in the text. -/
def shift (r : TableReference) (delta : Nat) : TableReference :=
  { r with
    span := r.span.shift delta
    alias? := r.alias?.map (·.shift delta)
    schema? := r.schema?.map (·.shift delta) }

end TableReference

end SqlCompletion
