import SqlCompletion.Grammar.Element
set_option autoImplicit false

/-!
# Names of database objects

Names of tables, columns, views, procedures and schemas. The rules that a completion is bound to
hold terminals only.
-/

namespace SqlCompletion.Mysql

open Element

/-- The name of a database. -/
def schemaRef : Element := ident

/-- The name of a table, with or without its database. -/
def tableRef : Element :=
  choice [seq [ident, opt (seq [sym .dot, ident])], seq [sym .dot, ident]]

/-- Names of tables, between commas. -/
def tableRefList : Element := separated (rule .tableRef) .comma

/-- The name of a table with its database. -/
def filterTableRef : Element := seq [ident, sym .dot, ident]

/-- All columns of a table. -/
def tableWild : Element := seq [ident, sym .dot, opt (seq [ident, sym .dot]), sym .mult]

/-- The name of a column, with or without its table and database. -/
def columnRef : Element :=
  choice [
    seq [ident, opt (seq [sym .dot, ident, opt (seq [sym .dot, ident])])],
    seq [sym .dot, ident, sym .dot, ident]]

/-- The name of a column of the table that is altered. -/
def columnInternalRef : Element := ident

/-- The name of a table that is about to be. -/
def tableName : Element :=
  choice [seq [ident, opt (seq [sym .dot, ident])], seq [sym .dot, ident]]

/-- The name of a view. -/
def viewRef : Element := seq [ident, opt (seq [sym .dot, ident])]

/-- The name of a procedure. -/
def procedureRef : Element := seq [ident, opt (seq [sym .dot, ident])]

/-- Names in parentheses. -/
def identifierListWithParentheses : Element :=
  seq [sym .openPar, separated ident .comma, sym .closePar]

end SqlCompletion.Mysql
