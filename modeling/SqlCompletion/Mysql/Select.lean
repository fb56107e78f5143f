import SqlCompletion.Grammar.Element
set_option autoImplicit false

/-!
# Queries

`SELECT` with its clauses: set operations, common table expressions, grouping, windows, ordering,
limits and locks.
-/

namespace SqlCompletion.Mysql

open Element

/-- A query with the locks that it takes. -/
def selectStatement : Element := seq [rule .queryExpression, star (rule .lockingClause)]

/-- A query with common tables in front, and with its order and limit behind it. -/
def queryExpression : Element :=
  seq [
    opt (since (.of 8 0 0) (rule .withClause)),
    rule .queryExpressionBody,
    opt (rule .orderClause),
    opt (rule .limitClause)]

/-- Queries joined by set operations; `EXCEPT` and `INTERSECT` came with 8.0.31. -/
def queryExpressionBody : Element :=
  seq [
    rule .queryPrimary,
    star (seq [
      choice [kw .UNION, since (.of 8 0 31) (anyKw [.EXCEPT, .INTERSECT])],
      opt (anyKw [.DISTINCT, .ALL]),
      rule .queryPrimary])]

/-- One operand of a set operation. -/
def queryPrimary : Element :=
  choice [
    rule .querySpecification,
    seq [sym .openPar, rule .queryExpression, sym .closePar],
    since (.of 8 0 19) (seq [kw .TABLE, rule .tableRef])]

/-- `SELECT` with its clauses, in their fixed order. -/
def querySpecification : Element :=
  seq [
    kw .SELECT,
    star (rule .selectOption),
    rule .selectItemList,
    opt (rule .intoClause),
    opt (rule .fromClause),
    opt (rule .whereClause),
    opt (rule .groupByClause),
    opt (rule .havingClause),
    opt (since (.of 8 0 0) (rule .windowClause))]

/-- A word between `SELECT` and what is selected. -/
def selectOption : Element :=
  anyKw [
    .DISTINCT, .ALL, .HIGH_PRIORITY, .STRAIGHT_JOIN, .SQL_SMALL_RESULT, .SQL_BIG_RESULT,
    .SQL_BUFFER_RESULT, .SQL_CALC_FOUND_ROWS, .SQL_NO_CACHE]

/-- What is selected; a star can stand in the first place only. -/
def selectItemList : Element :=
  seq [choice [rule .selectItem, sym .mult], star (seq [sym .comma, rule .selectItem])]

/-- One thing that is selected: all columns of a table, or a value. -/
def selectItem : Element := choice [rule .tableWild, seq [rule .expr, opt (rule .selectAlias)]]

/-- The name under which a value is selected. -/
def selectAlias : Element := seq [opt (kw .AS), choice [ident, rule .textStringLiteral]]

/-- Common tables. -/
def withClause : Element :=
  seq [kw .WITH, opt (kw .RECURSIVE), separated (rule .commonTableExpression) .comma]

/-- One common table: a name, names of its columns, and its query. -/
def commonTableExpression : Element :=
  seq [ident, opt (rule .identifierListWithParentheses), kw .AS, rule .subquery]

/-- A query in parentheses. -/
def subquery : Element := seq [sym .openPar, rule .queryExpression, sym .closePar]

/-- Where the result goes: a file, or variables. -/
def intoClause : Element :=
  seq [
    kw .INTO,
    choice [
      seq [kw .OUTFILE, rule .textStringLiteral],
      seq [kw .DUMPFILE, rule .textStringLiteral],
      separated ident .comma]]

/-- The condition that rows have to meet. -/
def whereClause : Element := seq [kw .WHERE, rule .expr]

/-- What rows are grouped by. -/
def groupByClause : Element := seq [kw .GROUP, kw .BY, rule .orderList, opt (rule .olapOption)]

/-- Subtotals of the groups. -/
def olapOption : Element := seq [kw .WITH, kw .ROLLUP]

/-- The condition that groups have to meet. -/
def havingClause : Element := seq [kw .HAVING, rule .expr]

/-- Named windows. -/
def windowClause : Element := seq [kw .WINDOW, separated (rule .windowDefinition) .comma]

/-- One named window. -/
def windowDefinition : Element := seq [ident, kw .AS, rule .windowSpec]

/-- A window: the window that it extends, its partitions, its order and its frame. -/
def windowSpec : Element :=
  seq [
    sym .openPar,
    opt ident,
    opt (seq [kw .PARTITION, kw .BY, rule .orderList]),
    opt (rule .orderClause),
    opt (rule .windowFrameClause),
    sym .closePar]

/-- The rows of a window that count, by one bound or by two. -/
def windowFrameClause : Element :=
  seq [
    anyKw [.ROWS, .RANGE],
    choice [
      rule .windowFrameBound,
      seq [kw .BETWEEN, rule .windowFrameBound, kw .AND, rule .windowFrameBound]]]

/-- One end of a window frame. -/
def windowFrameBound : Element :=
  choice [
    seq [kw .UNBOUNDED, anyKw [.PRECEDING, .FOLLOWING]],
    seq [kw .CURRENT, kw .ROW],
    seq [rule .expr, anyKw [.PRECEDING, .FOLLOWING]]]

/-- The order of the rows. -/
def orderClause : Element := seq [kw .ORDER, kw .BY, rule .orderList]

/-- Keys of an order, between commas. -/
def orderList : Element := separated (rule .orderExpression) .comma

/-- One key of an order, with its direction. -/
def orderExpression : Element := seq [rule .expr, opt (rule .direction)]

/-- Upward or downward. -/
def direction : Element := anyKw [.ASC, .DESC]

/-- How many rows, and from which one on. -/
def limitClause : Element := seq [kw .LIMIT, rule .limitOptions]

/-- How many rows; statements that change rows know no offset. -/
def simpleLimitClause : Element := seq [kw .LIMIT, rule .limitOption]

/-- A count, or an offset and a count in either spelling. -/
def limitOptions : Element :=
  seq [rule .limitOption, opt (seq [choice [sym .comma, kw .OFFSET], rule .limitOption])]

/-- One number of a limit. -/
def limitOption : Element := choice [ident, sym .paramMarker, sym .intNumber]

/-- How the rows that are read get locked. -/
def lockingClause : Element :=
  choice [
    seq [
      kw .FOR,
      choice [kw .UPDATE, since (.of 8 0 1) (kw .SHARE)],
      opt (since (.of 8 0 1) (seq [kw .OF, separated (rule .tableRef) .comma])),
      opt (since (.of 8 0 1) (choice [seq [kw .SKIP, kw .LOCKED], kw .NOWAIT]))],
    seq [kw .LOCK, kw .IN, kw .SHARE, kw .MODE]]

end SqlCompletion.Mysql
