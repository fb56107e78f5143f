import SqlCompletion.Grammar.Element
set_option autoImplicit false

/-!
# Utility statements

`DESCRIBE`, `EXPLAIN`, `HELP` and `USE`.
-/

namespace SqlCompletion.Mysql

open Element

/-- Statements that explain, and the choice of a database. -/
def utilityStatement : Element :=
  choice [rule .describeStatement, rule .explainStatement, rule .helpCommand, rule .useCommand]

/-- Describes a table or one column of it. -/
def describeStatement : Element :=
  seq [
    anyKw [.EXPLAIN, .DESCRIBE, .DESC],
    rule .tableRef,
    opt (choice [rule .textString, rule .columnRef])]

/-- Explains how a statement would be executed. -/
def explainStatement : Element :=
  seq [
    anyKw [.EXPLAIN, .DESCRIBE, .DESC],
    opt (choice [
      before (.of 8 0 0) (anyKw [.EXTENDED, .PARTITIONS]),
      seq [kw .FORMAT, sym .equal, ident],
      since (.of 8 0 18) (kw .ANALYZE)]),
    choice [
      rule .selectStatement,
      rule .deleteStatement,
      rule .insertStatement,
      rule .replaceStatement,
      rule .updateStatement,
      seq [kw .FOR, kw .CONNECTION, sym .intNumber]]]

/-- Looks a topic up. -/
def helpCommand : Element := seq [kw .HELP, choice [ident, rule .textString]]

/-- Chooses a database. -/
def useCommand : Element := seq [kw .USE, rule .schemaRef]

end SqlCompletion.Mysql
