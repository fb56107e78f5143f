import SqlCompletion.Grammar.Element
set_option autoImplicit false

/-!
# Table sources

The tables that a query reads: lists of tables, joins, derived tables, partitions and index
hints.
-/

namespace SqlCompletion.Mysql

open Element

/-- Where the rows come from. -/
def fromClause : Element := seq [kw .FROM, choice [kw .DUAL, rule .tableReferenceList]]

/-- Tables between commas. -/
def tableReferenceList : Element := separated (rule .tableReference) .comma

/-- A table with the tables joined to it. -/
def tableReference : Element := seq [rule .tableFactor, star (rule .joinedTable)]

/-- One join: an outer join has a condition, a natural join has none. -/
def joinedTable : Element :=
  choice [
    seq [rule .innerJoinType, rule .tableFactor, opt (rule .joinCondition)],
    seq [rule .outerJoinType, rule .tableFactor, rule .joinCondition],
    seq [rule .naturalJoinType, rule .tableFactor]]

/-- What a join compares. -/
def joinCondition : Element :=
  choice [seq [kw .ON, rule .expr], seq [kw .USING, rule .identifierListWithParentheses]]

/-- The words of an inner join. -/
def innerJoinType : Element :=
  choice [seq [opt (anyKw [.INNER, .CROSS]), kw .JOIN], kw .STRAIGHT_JOIN]

/-- The words of an outer join. -/
def outerJoinType : Element := seq [anyKw [.LEFT, .RIGHT], opt (kw .OUTER), kw .JOIN]

/-- The words of a natural join. -/
def naturalJoinType : Element :=
  choice [
    seq [kw .NATURAL, opt (kw .INNER), kw .JOIN],
    seq [kw .NATURAL, anyKw [.LEFT, .RIGHT], opt (kw .OUTER), kw .JOIN]]

/-- A table, a derived table, or tables in parentheses. -/
def tableFactor : Element :=
  choice [
    rule .singleTable,
    rule .derivedTable,
    seq [sym .openPar, rule .tableReferenceList, sym .closePar]]

/-- A named table with partitions, an alias and index hints. -/
def singleTable : Element :=
  seq [
    rule .tableRef,
    opt (rule .usePartition),
    opt (rule .tableAlias),
    opt (rule .indexHintList)]

/-- A query that stands for a table, with an alias and names of columns. -/
def derivedTable : Element :=
  choice [
    seq [rule .subquery, opt (rule .tableAlias), opt (rule .identifierListWithParentheses)],
    since (.of 8 0 14) (seq [
      kw .LATERAL,
      rule .subquery,
      opt (rule .tableAlias),
      opt (rule .identifierListWithParentheses)])]

/-- Another name for a table. -/
def tableAlias : Element := seq [opt (choice [kw .AS, sym .equal]), ident]

/-- The partitions of a table that count. -/
def usePartition : Element := seq [kw .PARTITION, rule .identifierListWithParentheses]

/-- Index hints, with or without commas in between. -/
def indexHintList : Element :=
  seq [rule .indexHint, star (seq [opt (sym .comma), rule .indexHint])]

/-- One index hint; only `USE` can name no index at all. -/
def indexHint : Element :=
  choice [
    seq [
      anyKw [.FORCE, .IGNORE],
      rule .indexOrKey,
      opt (rule .indexHintClause),
      sym .openPar,
      rule .indexList,
      sym .closePar],
    seq [
      kw .USE,
      rule .indexOrKey,
      opt (rule .indexHintClause),
      sym .openPar,
      opt (rule .indexList),
      sym .closePar]]

/-- The two words for an index. -/
def indexOrKey : Element := anyKw [.INDEX, .KEY]

/-- What an index hint is for. -/
def indexHintClause : Element :=
  seq [kw .FOR, choice [kw .JOIN, seq [kw .ORDER, kw .BY], seq [kw .GROUP, kw .BY]]]

/-- Names of indexes. -/
def indexList : Element := separated (choice [ident, kw .PRIMARY]) .comma

end SqlCompletion.Mysql
