import SqlCompletion.Grammar.Element
set_option autoImplicit false

/-!
# Data definition

`ALTER`, `CREATE`, `DROP`, `RENAME` and `TRUNCATE`, with columns, keys, types and table options.
-/

namespace SqlCompletion.Mysql

open Element

/-- Changes a table, a database or a view. -/
def alterStatement : Element :=
  seq [kw .ALTER, choice [rule .alterTable, rule .alterDatabase, rule .alterView]]

/-- The changes of one table; `IGNORE` went away with 5.7.0. -/
def alterTable : Element :=
  seq [
    opt (anyKw [.ONLINE, .OFFLINE]),
    opt (before (.of 5 7 0) (kw .IGNORE)),
    kw .TABLE,
    rule .tableRef,
    opt (rule .alterTableActions)]

/-- Changes of a table, between commas. -/
def alterTableActions : Element := separated (rule .alterListItem) .comma

/-- One change of a table. -/
def alterListItem : Element :=
  choice [
    seq [
      kw .ADD,
      opt (kw .COLUMN),
      choice [
        seq [ident, rule .fieldDefinition, opt (rule .referencesClause), opt (rule .place)],
        seq [sym .openPar, rule .tableElementList, sym .closePar]]],
    seq [kw .ADD, rule .tableConstraintDef],
    seq [
      kw .CHANGE,
      opt (kw .COLUMN),
      rule .columnInternalRef,
      ident,
      rule .fieldDefinition,
      opt (rule .place)],
    seq [
      kw .MODIFY,
      opt (kw .COLUMN),
      rule .columnInternalRef,
      rule .fieldDefinition,
      opt (rule .place)],
    seq [
      kw .DROP,
      choice [
        seq [opt (kw .COLUMN), rule .columnInternalRef, opt (anyKw [.RESTRICT, .CASCADE])],
        seq [kw .FOREIGN, kw .KEY, ident],
        seq [kw .PRIMARY, kw .KEY],
        seq [rule .indexOrKey, ident],
        since (.of 8 0 19) (seq [kw .CHECK, ident]),
        since (.of 8 0 19) (seq [kw .CONSTRAINT, ident])]],
    seq [kw .DISABLE, kw .KEYS],
    seq [kw .ENABLE, kw .KEYS],
    seq [
      kw .ALTER,
      opt (kw .COLUMN),
      rule .columnInternalRef,
      choice [
        seq [
          kw .SET,
          kw .DEFAULT,
          choice [rule .signedLiteral, seq [sym .openPar, rule .expr, sym .closePar]]],
        seq [kw .DROP, kw .DEFAULT]]],
    since (.of 8 0 0) (seq [kw .ALTER, kw .INDEX, ident, anyKw [.VISIBLE, .INVISIBLE]]),
    seq [kw .RENAME, opt (anyKw [.TO, .AS]), rule .tableName],
    seq [kw .RENAME, rule .indexOrKey, ident, kw .TO, ident],
    since (.of 8 0 0) (seq [kw .RENAME, kw .COLUMN, rule .columnInternalRef, kw .TO, ident]),
    seq [
      kw .CONVERT,
      kw .TO,
      rule .charset,
      choice [rule .charsetName, kw .DEFAULT],
      opt (seq [kw .COLLATE, ident])],
    kw .FORCE,
    seq [kw .ORDER, kw .BY, separated (seq [ident, opt (rule .direction)]) .comma],
    rule .createTableOption]

/-- Where a column goes among the others. -/
def place : Element := choice [seq [kw .AFTER, ident], kw .FIRST]

/-- The change of a database; without a name it is the current one. -/
def alterDatabase : Element :=
  seq [kw .DATABASE, opt (rule .schemaRef), plus (rule .createDatabaseOption)]

/-- The change of a view. -/
def alterView : Element :=
  seq [
    opt (rule .viewAlgorithm),
    kw .VIEW,
    rule .viewRef,
    opt (rule .identifierListWithParentheses),
    kw .AS,
    rule .queryExpression,
    opt (rule .viewCheckOption)]

/-- Creates a database, a table, an index or a view. -/
def createStatement : Element :=
  seq [
    kw .CREATE,
    choice [rule .createDatabase, rule .createTable, rule .createIndex, rule .createView]]

/-- A new database. -/
def createDatabase : Element :=
  seq [kw .DATABASE, opt (rule .ifNotExists), ident, star (rule .createDatabaseOption)]

/-- The character set or the collation of a database. -/
def createDatabaseOption : Element :=
  choice [
    seq [
      opt (kw .DEFAULT),
      rule .charset,
      opt (sym .equal),
      choice [rule .charsetName, kw .DEFAULT]],
    seq [opt (kw .DEFAULT), kw .COLLATE, opt (sym .equal), choice [ident, kw .DEFAULT]]]

/-- A new table: written out, like another one, or from a query. -/
def createTable : Element :=
  seq [
    opt (kw .TEMPORARY),
    kw .TABLE,
    opt (rule .ifNotExists),
    rule .tableName,
    choice [
      seq [
        sym .openPar,
        rule .tableElementList,
        sym .closePar,
        opt (rule .createTableOptions),
        opt (seq [opt (kw .AS), rule .queryExpression])],
      seq [kw .LIKE, rule .tableRef],
      seq [sym .openPar, kw .LIKE, rule .tableRef, sym .closePar],
      seq [opt (rule .createTableOptions), opt (kw .AS), rule .queryExpression]]]

/-- Columns and keys of a table, between commas. -/
def tableElementList : Element := separated (rule .tableElement) .comma

/-- One column or key of a table. -/
def tableElement : Element := choice [rule .columnDefinition, rule .tableConstraintDef]

/-- A column with its name. -/
def columnDefinition : Element :=
  seq [ident, rule .fieldDefinition, opt (rule .referencesClause)]

/-- The type and the attributes of a column. -/
def fieldDefinition : Element := seq [rule .dataType, star (rule .columnAttribute)]

/-- The type of a column. -/
def dataType : Element :=
  choice [
    seq [
      anyKw [.INT, .TINYINT, .SMALLINT, .MEDIUMINT, .BIGINT],
      opt (rule .fieldLength),
      opt (rule .fieldOptions)],
    seq [
      choice [kw .REAL, seq [kw .DOUBLE, opt (kw .PRECISION)]],
      opt (rule .precision),
      opt (rule .fieldOptions)],
    seq [
      anyKw [.FLOAT, .DECIMAL, .NUMERIC, .FIXED],
      opt (rule .floatOptions),
      opt (rule .fieldOptions)],
    seq [kw .BIT, opt (rule .fieldLength)],
    anyKw [.BOOL, .BOOLEAN],
    seq [kw .CHAR, opt (rule .fieldLength), opt (rule .charsetWithOptBinary)],
    seq [kw .NCHAR, opt (rule .fieldLength), opt (kw .BINARY)],
    seq [kw .BINARY, opt (rule .fieldLength)],
    seq [kw .VARCHAR, rule .fieldLength, opt (rule .charsetWithOptBinary)],
    seq [kw .NVARCHAR, rule .fieldLength, opt (kw .BINARY)],
    seq [kw .VARBINARY, rule .fieldLength],
    anyKw [.YEAR, .DATE],
    seq [anyKw [.TIME, .TIMESTAMP, .DATETIME], opt (rule .typeDatetimePrecision)],
    anyKw [.TINYBLOB, .BLOB, .MEDIUMBLOB, .LONGBLOB],
    seq [anyKw [.TINYTEXT, .TEXT, .MEDIUMTEXT, .LONGTEXT], opt (rule .charsetWithOptBinary)],
    seq [kw .ENUM, rule .stringList, opt (rule .charsetWithOptBinary)],
    seq [kw .SET, rule .stringList, opt (rule .charsetWithOptBinary)],
    kw .SERIAL,
    since (.of 5 7 8) (kw .JSON),
    anyKw [.GEOMETRY, .POINT, .LINESTRING, .POLYGON]]

/-- A length in parentheses. -/
def fieldLength : Element :=
  seq [sym .openPar, anySym [.intNumber, .decimalNumber], sym .closePar]

/-- The sign and the padding of a number. -/
def fieldOptions : Element := plus (anyKw [.SIGNED, .UNSIGNED, .ZEROFILL])

/-- The number of digits, and of those behind the point. -/
def precision : Element :=
  seq [sym .openPar, sym .intNumber, sym .comma, sym .intNumber, sym .closePar]

/-- The precision of a number, in either form. -/
def floatOptions : Element := choice [rule .fieldLength, rule .precision]

/-- The number of digits of a fraction of a second. -/
def typeDatetimePrecision : Element := seq [sym .openPar, sym .intNumber, sym .closePar]

/-- Strings in parentheses. -/
def stringList : Element :=
  seq [sym .openPar, separated (rule .textString) .comma, sym .closePar]

/-- A character set, compared by bytes or not. -/
def charsetWithOptBinary : Element :=
  choice [
    seq [rule .charset, rule .charsetName, opt (kw .BINARY)],
    kw .ASCII,
    kw .UNICODE,
    seq [kw .BINARY, opt (seq [rule .charset, rule .charsetName])]]

/-- The words that announce a character set. -/
def charset : Element := choice [seq [kw .CHAR, kw .SET], kw .CHARSET]

/-- The name of a character set. -/
def charsetName : Element := choice [ident, rule .textString, kw .BINARY]

/-- A character set by its name. -/
def charsetClause : Element := seq [rule .charset, rule .charsetName]

/-- One attribute of a column. -/
def columnAttribute : Element :=
  choice [
    seq [opt (kw .NOT), kw .NULL],
    seq [
      kw .DEFAULT,
      choice [
        rule .signedLiteral,
        seq [kw .NOW, opt (seq [sym .openPar, sym .closePar])],
        since (.of 8 0 13) (seq [sym .openPar, rule .expr, sym .closePar])]],
    seq [kw .ON, kw .UPDATE, kw .NOW, opt (seq [sym .openPar, sym .closePar])],
    kw .AUTO_INCREMENT,
    seq [kw .SERIAL, kw .DEFAULT, kw .VALUE],
    seq [opt (kw .PRIMARY), kw .KEY],
    seq [kw .UNIQUE, opt (kw .KEY)],
    seq [sym .comment, rule .textLiteral],
    seq [kw .COLLATE, ident],
    seq [kw .COLUMN_FORMAT, anyKw [.FIXED, .DYNAMIC, .DEFAULT]],
    since (.of 8 0 16) (rule .checkConstraint),
    since (.of 8 0 16) (seq [opt (kw .NOT), kw .ENFORCED])]

/-- A key, an index or a condition of a table. -/
def tableConstraintDef : Element :=
  choice [
    seq [rule .indexOrKey, opt ident, rule .keyList],
    seq [anyKw [.FULLTEXT, .SPATIAL], opt (rule .indexOrKey), opt ident, rule .keyList],
    seq [
      opt (rule .constraintName),
      choice [
        seq [kw .PRIMARY, kw .KEY, opt ident, rule .keyList],
        seq [kw .UNIQUE, opt (rule .indexOrKey), opt ident, rule .keyList],
        seq [kw .FOREIGN, kw .KEY, opt ident, rule .keyList, rule .referencesClause],
        since (.of 8 0 16) (rule .checkConstraint)]]]

/-- The name of a constraint, which can be left out. -/
def constraintName : Element := seq [kw .CONSTRAINT, opt ident]

/-- A condition that rows have to meet. -/
def checkConstraint : Element := seq [kw .CHECK, sym .openPar, rule .expr, sym .closePar]

/-- Columns of a key, with lengths and directions. -/
def keyList : Element :=
  seq [
    sym .openPar,
    separated (seq [ident, opt (rule .fieldLength), opt (rule .direction)]) .comma,
    sym .closePar]

/-- The key of another table that a key refers to. -/
def referencesClause : Element :=
  seq [
    kw .REFERENCES,
    rule .tableRef,
    opt (rule .identifierListWithParentheses),
    star (seq [kw .ON, anyKw [.UPDATE, .DELETE], rule .deleteOption])]

/-- What happens when the other key changes. -/
def deleteOption : Element :=
  choice [
    anyKw [.RESTRICT, .CASCADE],
    seq [kw .SET, anyKw [.NULL, .DEFAULT]],
    seq [kw .NO, kw .ACTION]]

/-- Options of a table, with or without commas in between. -/
def createTableOptions : Element :=
  seq [rule .createTableOption, star (seq [opt (sym .comma), rule .createTableOption])]

/-- One option of a table. -/
def createTableOption : Element :=
  choice [
    seq [kw .ENGINE, opt (sym .equal), ident],
    seq [kw .AUTO_INCREMENT, opt (sym .equal), sym .intNumber],
    seq [sym .comment, opt (sym .equal), rule .textLiteral],
    seq [
      kw .ROW_FORMAT,
      opt (sym .equal),
      anyKw [.DEFAULT, .DYNAMIC, .FIXED, .COMPRESSED, .REDUNDANT, .COMPACT]],
    seq [
      opt (kw .DEFAULT),
      rule .charset,
      opt (sym .equal),
      choice [rule .charsetName, kw .DEFAULT]],
    seq [opt (kw .DEFAULT), kw .COLLATE, opt (sym .equal), ident]]

/-- A new index. -/
def createIndex : Element :=
  seq [
    opt (anyKw [.UNIQUE, .FULLTEXT, .SPATIAL]),
    kw .INDEX,
    ident,
    kw .ON,
    rule .tableRef,
    rule .keyList,
    star (rule .indexOption)]

/-- One option of an index. -/
def indexOption : Element :=
  choice [
    seq [kw .USING, anyKw [.BTREE, .HASH]],
    seq [sym .comment, rule .textLiteral],
    since (.of 8 0 0) (anyKw [.VISIBLE, .INVISIBLE])]

/-- A new view. -/
def createView : Element :=
  seq [
    opt (seq [kw .OR, kw .REPLACE]),
    opt (rule .viewAlgorithm),
    kw .VIEW,
    rule .tableName,
    opt (rule .identifierListWithParentheses),
    kw .AS,
    rule .queryExpression,
    opt (rule .viewCheckOption)]

/-- How a view is computed. -/
def viewAlgorithm : Element :=
  seq [kw .ALGORITHM, sym .equal, anyKw [.UNDEFINED, .MERGE, .TEMPTABLE]]

/-- Whether changes through a view have to stay inside it. -/
def viewCheckOption : Element :=
  seq [kw .WITH, opt (anyKw [.CASCADED, .LOCAL]), kw .CHECK, kw .OPTION]

/-- Removes a database, tables, views or an index. -/
def dropStatement : Element :=
  seq [
    kw .DROP,
    choice [
      seq [kw .DATABASE, opt (rule .ifExists), rule .schemaRef],
      seq [
        opt (kw .TEMPORARY),
        anyKw [.TABLE, .TABLES],
        opt (rule .ifExists),
        rule .tableRefList,
        opt (anyKw [.RESTRICT, .CASCADE])],
      seq [
        kw .VIEW,
        opt (rule .ifExists),
        separated (rule .viewRef) .comma,
        opt (anyKw [.RESTRICT, .CASCADE])],
      seq [opt (anyKw [.ONLINE, .OFFLINE]), kw .INDEX, ident, kw .ON, rule .tableRef]]]

/-- Gives tables other names. -/
def renameTableStatement : Element :=
  seq [
    kw .RENAME,
    anyKw [.TABLE, .TABLES],
    separated (seq [rule .tableRef, kw .TO, rule .tableName]) .comma]

/-- Empties a table. -/
def truncateTableStatement : Element := seq [kw .TRUNCATE, opt (kw .TABLE), rule .tableRef]

/-- No complaint about what is not there. -/
def ifExists : Element := seq [kw .IF, kw .EXISTS]

/-- No complaint about what is there already. -/
def ifNotExists : Element := seq [kw .IF, kw .NOT, kw .EXISTS]

end SqlCompletion.Mysql
