import SqlCompletion.Grammar.Element
set_option autoImplicit false

/-!
# Expressions

Conditions and values. Operators of different strength stand side by side: what matters is which
texts are expressions, and not how they group.
-/

namespace SqlCompletion.Mysql

open Element

/-- Conditions joined by `AND`, `XOR` and `OR`. -/
def expr : Element :=
  seq [
    rule .boolTerm,
    star (seq [
      choice [kw .AND, sym .logicalAnd, kw .XOR, kw .OR, sym .logicalOr],
      rule .boolTerm])]

/-- A condition that can be negated or compared with a truth value. -/
def boolTerm : Element :=
  choice [
    seq [kw .NOT, rule .boolTerm],
    seq [
      rule .boolPri,
      opt (seq [kw .IS, opt (rule .notRule), anyKw [.TRUE, .FALSE, .UNKNOWN]])]]

/-- Comparisons, from left to right. -/
def boolPri : Element :=
  seq [
    rule .predicate,
    star (choice [
      seq [kw .IS, opt (rule .notRule), kw .NULL],
      seq [rule .compOp, choice [rule .predicate, seq [anyKw [.ALL, .ANY], rule .subquery]]]])]

/-- A comparison. -/
def compOp : Element :=
  anySym [.equal, .nullSafeEqual, .greaterOrEqual, .greater, .lessOrEqual, .less, .notEqual]

/-- A value with a test: membership, a range, a pattern or a sound. -/
def predicate : Element :=
  seq [
    rule .bitExpr,
    opt (choice [
      seq [opt (rule .notRule), rule .predicateOperations],
      since (.of 8 0 17) (seq [kw .MEMBER, opt (kw .OF), rule .simpleExprWithParentheses]),
      seq [kw .SOUNDS, kw .LIKE, rule .bitExpr]])]

/-- The tests that can be negated. -/
def predicateOperations : Element :=
  choice [
    seq [kw .IN, choice [rule .subquery, seq [sym .openPar, rule .exprList, sym .closePar]]],
    seq [kw .BETWEEN, rule .bitExpr, kw .AND, rule .predicate],
    seq [kw .LIKE, rule .simpleExpr, opt (seq [kw .ESCAPE, rule .simpleExpr])],
    seq [kw .REGEXP, rule .bitExpr]]

/-- Values joined by operators on numbers, bits, texts and dates. -/
def bitExpr : Element :=
  seq [
    rule .simpleExpr,
    star (choice [
      seq [
        choice [
          sym .bitwiseOr, sym .bitwiseAnd, sym .shiftLeft, sym .shiftRight, sym .plus,
          sym .minus, sym .mult, sym .divide, sym .modulo, kw .DIV, kw .MOD, sym .bitwiseXor,
          sym .concatPipes],
        rule .simpleExpr],
      seq [anySym [.plus, .minus], kw .INTERVAL, rule .expr, rule .interval]])]

/-- One operand, with the collation that it is compared by. -/
def simpleExpr : Element :=
  seq [
    choice [
      rule .columnRef,
      rule .runtimeFunctionCall,
      rule .functionCall,
      rule .literal,
      sym .paramMarker,
      rule .sumExpr,
      since (.of 8 0 0) (rule .windowFunctionCall),
      seq [anySym [.plus, .minus, .bitwiseNot], rule .simpleExpr],
      seq [rule .not2Rule, rule .simpleExpr],
      seq [opt (kw .ROW), sym .openPar, rule .exprList, sym .closePar],
      seq [opt (kw .EXISTS), rule .subquery],
      seq [
        kw .MATCH,
        rule .identifierListWithParentheses,
        kw .AGAINST,
        sym .openPar,
        rule .bitExpr,
        opt (rule .fulltextOptions),
        sym .closePar],
      seq [kw .BINARY, rule .simpleExpr],
      seq [kw .CAST, sym .openPar, rule .expr, kw .AS, rule .castType, sym .closePar],
      seq [
        kw .CASE,
        opt (rule .expr),
        plus (seq [rule .whenExpression, rule .thenExpression]),
        opt (rule .elseExpression),
        kw .END],
      seq [
        kw .CONVERT,
        sym .openPar,
        rule .expr,
        choice [seq [sym .comma, rule .castType], seq [kw .USING, rule .charsetName]],
        sym .closePar],
      seq [kw .DEFAULT, sym .openPar, ident, sym .closePar],
      seq [kw .VALUES, sym .openPar, ident, sym .closePar],
      seq [kw .INTERVAL, rule .expr, rule .interval, sym .plus, rule .expr]],
    opt (seq [kw .COLLATE, ident])]

/-- An operand in parentheses. -/
def simpleExprWithParentheses : Element := seq [sym .openPar, rule .simpleExpr, sym .closePar]

/-- How a full-text search goes about it. -/
def fulltextOptions : Element :=
  choice [
    seq [kw .IN, kw .BOOLEAN, kw .MODE],
    seq [
      kw .IN,
      kw .NATURAL,
      kw .LANGUAGE,
      kw .MODE,
      opt (seq [kw .WITH, kw .QUERY, kw .EXPANSION])],
    seq [kw .WITH, kw .QUERY, kw .EXPANSION]]

/-- The negation of a test, at either strength. -/
def notRule : Element := choice [kw .NOT, sym .not2]

/-- The negations that bind as strongly as a sign. -/
def not2Rule : Element := anySym [.logicalNot, .not2]

/-- Values between commas. -/
def exprList : Element := separated (rule .expr) .comma

/-- The condition of one case. -/
def whenExpression : Element := seq [kw .WHEN, rule .expr]

/-- The value of one case. -/
def thenExpression : Element := seq [kw .THEN, rule .expr]

/-- The value if no case applies. -/
def elseExpression : Element := seq [kw .ELSE, rule .expr]

/-- The unit of a span of time. -/
def interval : Element :=
  anyKw [
    .MICROSECOND, .SECOND, .MINUTE, .HOUR, .DAY, .WEEK, .MONTH, .QUARTER, .YEAR,
    .SECOND_MICROSECOND, .MINUTE_MICROSECOND, .MINUTE_SECOND, .HOUR_MICROSECOND, .HOUR_SECOND,
    .HOUR_MINUTE, .DAY_MICROSECOND, .DAY_SECOND, .DAY_MINUTE, .DAY_HOUR, .YEAR_MONTH]

/-- The type that a value is converted to. -/
def castType : Element :=
  choice [
    seq [kw .BINARY, opt (rule .fieldLength)],
    seq [kw .CHAR, opt (rule .fieldLength), opt (rule .charsetWithOptBinary)],
    seq [kw .NCHAR, opt (rule .fieldLength)],
    seq [kw .SIGNED, opt (kw .INT)],
    seq [kw .UNSIGNED, opt (kw .INT)],
    kw .DATE,
    seq [kw .TIME, opt (rule .typeDatetimePrecision)],
    seq [kw .DATETIME, opt (rule .typeDatetimePrecision)],
    seq [kw .DECIMAL, opt (rule .floatOptions)],
    since (.of 5 7 8) (kw .JSON),
    since (.of 8 0 17) (kw .REAL),
    since (.of 8 0 17) (seq [kw .DOUBLE, opt (kw .PRECISION)]),
    since (.of 8 0 17) (seq [kw .FLOAT, opt (rule .fieldLength)])]

end SqlCompletion.Mysql
