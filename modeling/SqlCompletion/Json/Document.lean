import SqlCompletion.Engine.Basic
import SqlCompletion.Json.Decoder
import SqlCompletion.Json.Parser
set_option autoImplicit false

/-!
# Documents

Options, catalogs, references and suggestions as JSON documents, in both directions. Fields are
written in camel case, and optional ones only if they are there.
-/

namespace SqlCompletion

/-! ## Places and references -/

/-- A span as a document. -/
def Span.toJson (s : Span) : Json :=
  .ofEntries [("start", some (.natural s.start)), ("end", some (.natural s.stop))]

/-- Reads a span. -/
def Span.ofJson? (j : Json) : Option Span := do
  match ← j.fields? ["start", "end"] with
  | [start, stop] =>
    return ⟨← Json.required? Json.asWord? start, ← Json.required? Json.asWord? stop⟩
  | _ => none

/-- A name and its place as a document; the name stands under `key`. -/
def NameAt.toJson (key : String) (n : NameAt) : Json :=
  .ofEntries [(key, some (.text n.name)), ("span", some n.span.toJson)]

/-- Reads a name and its place. -/
def NameAt.ofJson? (key : String) (j : Json) : Option NameAt := do
  match ← j.fields? [key, "span"] with
  | [name, span] => return ⟨← Json.required? Json.asText? name, ← Json.required? Span.ofJson? span⟩
  | _ => none

/-- The name of a kind of reference. -/
def ReferenceKind.name : ReferenceKind → String
  | table => "tableRef"
  | schema => "schemaRef"

/-- The kind of reference of that name. -/
def ReferenceKind.ofName? (name : String) : Option ReferenceKind :=
  [table, schema].find? fun k => k.name == name

/-- A reference as a document. -/
def TableReference.toJson (r : TableReference) : Json :=
  .ofEntries
    [("type", some (.text r.kind.name)), ("table", r.table?.map .text),
     ("span", some r.span.toJson), ("aliasReference", r.alias?.map (·.toJson "alias")),
     ("schemaReference", r.schema?.map (·.toJson "schema"))]

/-- Reads a reference. -/
def TableReference.ofJson? (j : Json) : Option TableReference := do
  match ← j.fields? ["type", "table", "span", "aliasReference", "schemaReference"] with
  | [kind, table, span, otherName, schema] =>
    return {
      kind := ← Json.required? (Json.asChoice? ReferenceKind.ofName?) kind
      table? := ← Json.withDefault? none (Json.asOption? Json.asText?) table
      span := ← Json.required? Span.ofJson? span
      alias? := ← Json.withDefault? none (Json.asOption? (NameAt.ofJson? "alias")) otherName
      schema? := ← Json.withDefault? none (Json.asOption? (NameAt.ofJson? "schema")) schema }
  | _ => none

/-! ## Suggestions -/

/-- The name of a kind of suggestion. -/
def ItemKind.name : ItemKind → String
  | keyword => "keyword"
  | column => "column"
  | table => "table"

/-- The kind of suggestion of that name. -/
def ItemKind.ofName? (name : String) : Option ItemKind :=
  [keyword, column, table].find? fun k => k.name == name

/-- A suggestion as a document. -/
def Item.toJson (i : Item) : Json :=
  .ofEntries [("text", some (.text i.text)), ("type", some (.text i.kind.name))]

/-- Reads a suggestion. -/
def Item.ofJson? (j : Json) : Option Item := do
  match ← j.fields? ["text", "type"] with
  | [text, kind] =>
    return ⟨← Json.required? Json.asText? text,
      ← Json.required? (Json.asChoice? ItemKind.ofName?) kind⟩
  | _ => none

/-! ## Catalogs -/

/-- The name of a way to compare names. -/
def NameCase.name : NameCase → String
  | exact => "exact"
  | lower => "lower"
  | upper => "upper"

/-- The way to compare names of that name. -/
def NameCase.ofName? (name : String) : Option NameCase :=
  [exact, lower, upper].find? fun c => c.name == name

/-- A column as a document. -/
def Column.toJson (c : Column) : Json :=
  .ofEntries [("name", some (.text c.name)), ("dataType", c.dataType?.map .text)]

/-- Reads a column. -/
def Column.ofJson? (j : Json) : Option Column := do
  match ← j.fields? ["name", "dataType"] with
  | [name, dataType] =>
    return ⟨← Json.required? Json.asText? name,
      ← Json.withDefault? none (Json.asOption? Json.asText?) dataType⟩
  | _ => none

/-- A table as a document. -/
def CatalogTable.toJson (t : CatalogTable) : Json :=
  .ofEntries
    [("schema", t.schema?.map .text), ("name", some (.text t.name)),
     ("columns", some (.array (t.columns.map Column.toJson)))]

/-- Reads a table. -/
def CatalogTable.ofJson? (j : Json) : Option CatalogTable := do
  match ← j.fields? ["schema", "name", "columns"] with
  | [schema, name, columns] =>
    return ⟨← Json.withDefault? none (Json.asOption? Json.asText?) schema,
      ← Json.required? Json.asText? name,
      ← Json.withDefault? [] (Json.asList? Column.ofJson?) columns⟩
  | _ => none

/-- A catalog as a document. -/
def Catalog.toJson (c : Catalog) : Json :=
  .ofEntries
    [("caseSensitivity", some (.text c.nameCase.name)),
     ("tables", some (.array (c.tables.map CatalogTable.toJson)))]

/-- Reads a catalog. -/
def Catalog.ofJson? (j : Json) : Option Catalog := do
  match ← j.fields? ["caseSensitivity", "tables"] with
  | [nameCase, tables] =>
    return ⟨← Json.withDefault? .exact (Json.asChoice? NameCase.ofName?) nameCase,
      ← Json.withDefault? [] (Json.asList? CatalogTable.ofJson?) tables⟩
  | _ => none

/-- Reads a catalog from the text of a document. -/
def Catalog.parse (text : String) : Except Error Catalog :=
  match (Json.parse? text).bind Catalog.ofJson? with
  | some c => .ok c
  | none => .error .invalidCatalog

/-! ## Options -/

/-- Reads a server version. -/
def Version.ofJson? (j : Json) : Option Version := do Version.parse? (← j.asText?)

/-- A dialect as a document. -/
def Dialect.toJson (d : Dialect) : Json :=
  .ofEntries
    [("serverVersion", some (.text d.version.text)),
     ("sqlModes", some (.array (d.modes.map fun m => .text m.name)))]

/-- Reads a dialect. -/
def Dialect.ofJson? (j : Json) : Option Dialect := do
  match ← j.fields? ["serverVersion", "sqlModes"] with
  | [version, modes] =>
    return ⟨← Json.withDefault? .standard Version.ofJson? version,
      ← Json.withDefault? [] (Json.asList? (Json.asChoice? Mode.ofName?)) modes⟩
  | _ => none

/-- The name of a policy. -/
def OffsetPolicy.name : OffsetPolicy → String
  | clamp => "clamp"
  | strict => "strict"

/-- The policy of that name. -/
def OffsetPolicy.ofName? (name : String) : Option OffsetPolicy :=
  [clamp, strict].find? fun p => p.name == name

/-- Options as a document. -/
def Options.toJson (o : Options) : Json :=
  .ofEntries
    [("uppercaseKeywords", some (.bool o.uppercaseKeywords)),
     ("parserOptions", some o.dialect.toJson), ("schema", o.catalog?.map Catalog.toJson),
     ("offsetPolicy", some (.text o.offsetPolicy.name))]

/-- Reads options. -/
def Options.ofJson? (j : Json) : Option Options := do
  match ← j.fields? ["uppercaseKeywords", "parserOptions", "schema", "offsetPolicy"] with
  | [uppercase, dialect, schema, policy] =>
    return {
      uppercaseKeywords := ← Json.withDefault? true Json.asBool? uppercase
      dialect := ← Json.withDefault? {} Dialect.ofJson? dialect
      catalog? := ← Json.withDefault? none (Json.asOption? Catalog.ofJson?) schema
      offsetPolicy := ← Json.withDefault? .clamp (Json.asChoice? OffsetPolicy.ofName?) policy }
  | _ => none

end SqlCompletion
