import SqlCompletion.Grammar.Element
set_option autoImplicit false

/-!
# Function calls

Functions that are named by keywords, ordinary calls, aggregates and window functions.
-/

namespace SqlCompletion.Mysql

open Element

/-- A call of a function whose name is a keyword; some need no parentheses. -/
def runtimeFunctionCall : Element :=
  choice [
    seq [
      anyKw [
        .CHAR, .DATE, .DAY, .HOUR, .INSERT, .INTERVAL, .LEFT, .MINUTE, .MONTH, .RIGHT, .SECOND,
        .TIME, .TIMESTAMP, .TRIM, .YEAR, .ADDDATE, .SUBDATE, .DATE_ADD, .DATE_SUB, .EXTRACT,
        .SUBSTRING, .COALESCE, .IF, .REPLACE, .REPEAT, .MOD, .DATABASE, .FORMAT, .MICROSECOND,
        .PASSWORD, .QUARTER, .WEEK, .WEIGHT_STRING],
      sym .openPar,
      opt (rule .exprList),
      sym .closePar],
    seq [
      anyKw [.CURDATE, .CURTIME, .NOW, .SYSDATE, .UTC_DATE, .UTC_TIME, .UTC_TIMESTAMP, .USER],
      sym .openPar,
      opt (rule .exprList),
      sym .closePar],
    seq [
      anyKw [.CURRENT_USER, .CURRENT_DATE, .CURRENT_TIME, .CURRENT_TIMESTAMP],
      opt (seq [sym .openPar, sym .closePar])]]

/-- A call of any other function. -/
def functionCall : Element :=
  seq [ident, opt (seq [sym .dot, ident]), sym .openPar, opt (rule .exprList), sym .closePar]

/-- A call of an aggregate function. -/
def sumExpr : Element :=
  choice [
    seq [
      kw .COUNT,
      sym .openPar,
      choice [
        seq [opt (kw .ALL), sym .mult],
        seq [opt (anyKw [.ALL, .DISTINCT]), rule .exprList]],
      sym .closePar,
      opt (since (.of 8 0 0) (rule .windowingClause))],
    seq [
      anyKw [
        .AVG, .BIT_AND, .BIT_OR, .BIT_XOR, .MIN, .MAX, .STD, .VARIANCE, .STDDEV_SAMP, .VAR_SAMP,
        .SUM],
      sym .openPar,
      opt (anyKw [.ALL, .DISTINCT]),
      rule .expr,
      sym .closePar,
      opt (since (.of 8 0 0) (rule .windowingClause))],
    seq [
      kw .GROUP_CONCAT,
      sym .openPar,
      opt (kw .DISTINCT),
      rule .exprList,
      opt (rule .orderClause),
      opt (seq [kw .SEPARATOR, rule .textString]),
      sym .closePar]]

/-- A call of a function that needs a window. -/
def windowFunctionCall : Element :=
  choice [
    seq [
      anyKw [.ROW_NUMBER, .RANK, .DENSE_RANK, .CUME_DIST, .PERCENT_RANK],
      sym .openPar,
      sym .closePar,
      rule .windowingClause],
    seq [
      anyKw [.NTILE, .LEAD, .LAG, .FIRST_VALUE, .LAST_VALUE, .NTH_VALUE],
      sym .openPar,
      rule .exprList,
      sym .closePar,
      rule .windowingClause]]

/-- The window of a call, by its name or written out. -/
def windowingClause : Element := seq [kw .OVER, choice [rule .windowSpec, ident]]

end SqlCompletion.Mysql
