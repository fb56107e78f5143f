import SqlCompletion.Grammar.Element
set_option autoImplicit false

/-!
# Data manipulation

`CALL`, `DELETE`, `DO`, `HANDLER`, `INSERT`, `LOAD`, `REPLACE` and `UPDATE`.
-/

namespace SqlCompletion.Mysql

open Element

/-- A call of a procedure. -/
def callStatement : Element :=
  seq [
    kw .CALL,
    rule .procedureRef,
    opt (seq [sym .openPar, opt (rule .exprList), sym .closePar])]

/-- Deletes rows of one table, or of several that are joined. -/
def deleteStatement : Element :=
  seq [
    opt (since (.of 8 0 0) (rule .withClause)),
    kw .DELETE,
    star (anyKw [.QUICK, .LOW_PRIORITY, .IGNORE]),
    choice [
      seq [
        kw .FROM,
        choice [
          seq [
            rule .tableRef,
            opt (rule .tableAlias),
            opt (rule .usePartition),
            opt (rule .whereClause),
            opt (rule .orderClause),
            opt (rule .simpleLimitClause)],
          seq [
            rule .tableAliasRefList,
            kw .USING,
            rule .tableReferenceList,
            opt (rule .whereClause)]]],
      seq [rule .tableAliasRefList, kw .FROM, rule .tableReferenceList, opt (rule .whereClause)]]]

/-- The tables whose rows are deleted. -/
def tableAliasRefList : Element :=
  separated (seq [rule .tableRef, opt (seq [sym .dot, sym .mult])]) .comma

/-- Evaluates values; they can have names from 5.7.9 on. -/
def doStatement : Element :=
  seq [
    kw .DO,
    choice [before (.of 5 7 9) (rule .exprList), since (.of 5 7 9) (rule .selectItemList)]]

/-- Reads a table row by row. -/
def handlerStatement : Element :=
  seq [
    kw .HANDLER,
    choice [
      seq [rule .tableRef, kw .OPEN, opt (rule .tableAlias)],
      seq [
        ident,
        choice [
          kw .CLOSE,
          seq [
            kw .READ,
            rule .handlerReadOrScan,
            opt (rule .whereClause),
            opt (rule .limitClause)]]]]]

/-- Which row is read: in the order of the table, or by an index. -/
def handlerReadOrScan : Element :=
  choice [
    anyKw [.FIRST, .NEXT],
    seq [
      ident,
      choice [
        anyKw [.FIRST, .NEXT, .PREV, .LAST],
        seq [
          anySym [.equal, .less, .greater, .lessOrEqual, .greaterOrEqual],
          sym .openPar,
          rule .values,
          sym .closePar]]]]

/-- Inserts rows. -/
def insertStatement : Element :=
  seq [
    kw .INSERT,
    opt (anyKw [.LOW_PRIORITY, .DELAYED, .HIGH_PRIORITY]),
    opt (kw .IGNORE),
    opt (kw .INTO),
    rule .tableRef,
    opt (rule .usePartition),
    choice [
      rule .insertFromConstructor,
      seq [kw .SET, rule .updateList],
      rule .insertQueryExpression],
    opt (rule .insertUpdateList)]

/-- Rows that are written out, with the columns that they fill. -/
def insertFromConstructor : Element :=
  seq [opt (seq [sym .openPar, opt (rule .fields), sym .closePar]), rule .insertValues]

/-- Columns that are filled. -/
def fields : Element := separated (rule .insertIdentifier) .comma

/-- One column that is filled. -/
def insertIdentifier : Element := choice [rule .columnRef, rule .tableWild]

/-- Rows that are written out. -/
def insertValues : Element := seq [anyKw [.VALUES, .VALUE], rule .valueList]

/-- Rows between commas. -/
def valueList : Element :=
  separated (seq [sym .openPar, opt (rule .values), sym .closePar]) .comma

/-- The values of one row. -/
def values : Element := separated (choice [rule .expr, kw .DEFAULT]) .comma

/-- Rows that a query finds, with the columns that they fill. -/
def insertQueryExpression : Element :=
  choice [
    rule .queryExpression,
    seq [sym .openPar, opt (rule .fields), sym .closePar, rule .queryExpression]]

/-- What happens to a row whose key is there already. -/
def insertUpdateList : Element :=
  seq [kw .ON, kw .DUPLICATE, kw .KEY, kw .UPDATE, rule .updateList]

/-- Loads rows from a file. -/
def loadStatement : Element :=
  seq [
    kw .LOAD,
    kw .DATA,
    opt (anyKw [.LOW_PRIORITY, .CONCURRENT]),
    opt (kw .LOCAL),
    kw .INFILE,
    rule .textLiteral,
    opt (anyKw [.REPLACE, .IGNORE]),
    kw .INTO,
    kw .TABLE,
    rule .tableRef,
    opt (rule .usePartition),
    opt (rule .charsetClause),
    opt (rule .fieldsClause),
    opt (rule .linesClause),
    opt (seq [kw .IGNORE, sym .intNumber, anyKw [.LINES, .ROWS]]),
    opt (seq [sym .openPar, opt (rule .fields), sym .closePar]),
    opt (seq [kw .SET, rule .updateList])]

/-- How a file divides a row into values. -/
def fieldsClause : Element :=
  seq [
    kw .COLUMNS,
    plus (choice [
      seq [kw .TERMINATED, kw .BY, rule .textString],
      seq [opt (kw .OPTIONALLY), kw .ENCLOSED, kw .BY, rule .textString],
      seq [kw .ESCAPED, kw .BY, rule .textString]])]

/-- How a file divides itself into rows. -/
def linesClause : Element :=
  seq [
    kw .LINES,
    plus (choice [
      seq [kw .STARTING, kw .BY, rule .textString],
      seq [kw .TERMINATED, kw .BY, rule .textString]])]

/-- Inserts rows in the place of those with the same key. -/
def replaceStatement : Element :=
  seq [
    kw .REPLACE,
    opt (anyKw [.LOW_PRIORITY, .DELAYED]),
    opt (kw .INTO),
    rule .tableRef,
    opt (rule .usePartition),
    choice [
      rule .insertFromConstructor,
      seq [kw .SET, rule .updateList],
      rule .insertQueryExpression]]

/-- Changes rows. -/
def updateStatement : Element :=
  seq [
    opt (since (.of 8 0 0) (rule .withClause)),
    kw .UPDATE,
    opt (kw .LOW_PRIORITY),
    opt (kw .IGNORE),
    rule .tableReferenceList,
    kw .SET,
    rule .updateList,
    opt (rule .whereClause),
    opt (rule .orderClause),
    opt (rule .simpleLimitClause)]

/-- Changes of columns, between commas. -/
def updateList : Element := separated (rule .updateElement) .comma

/-- The change of one column. -/
def updateElement : Element :=
  seq [rule .columnRef, sym .equal, choice [rule .expr, kw .DEFAULT]]

end SqlCompletion.Mysql
