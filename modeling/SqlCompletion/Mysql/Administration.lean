import SqlCompletion.Grammar.Element
set_option autoImplicit false

/-!
# Administration

Accounts and privileges, table maintenance, plugins, variables, `SHOW` and other administrative
statements.
-/

namespace SqlCompletion.Mysql

open Element

/-- Prepares a statement, executes it or gives it up. -/
def preparedStatement : Element :=
  choice [
    seq [kw .PREPARE, ident, kw .FROM, choice [rule .textLiteral, ident]],
    seq [kw .EXECUTE, ident, opt (seq [kw .USING, separated ident .comma])],
    seq [anyKw [.DEALLOCATE, .DROP], kw .PREPARE, ident]]

/-- Grants privileges, or takes them away. -/
def accountManagementStatement : Element :=
  choice [
    seq [
      kw .GRANT,
      rule .privilegeList,
      kw .ON,
      rule .grantIdentifier,
      kw .TO,
      rule .userList,
      opt (seq [kw .WITH, kw .GRANT, kw .OPTION])],
    seq [
      kw .REVOKE,
      rule .privilegeList,
      kw .ON,
      rule .grantIdentifier,
      kw .FROM,
      rule .userList]]

/-- All privileges, or some of them. -/
def privilegeList : Element :=
  choice [seq [kw .ALL, opt (kw .PRIVILEGES)], separated (rule .privilegeType) .comma]

/-- One privilege. -/
def privilegeType : Element :=
  choice [
    anyKw [
      .SELECT, .INSERT, .UPDATE, .DELETE, .CREATE, .DROP, .ALTER, .INDEX, .EXECUTE, .USAGE,
      .RELOAD, .SHUTDOWN, .PROCESS, .FILE, .REFERENCES, .EVENT, .TRIGGER],
    seq [kw .SHOW, kw .DATABASES],
    seq [kw .SHOW, kw .VIEW],
    seq [kw .CREATE, anyKw [.VIEW, .TEMPORARY, .ROUTINE, .USER]],
    seq [kw .LOCK, kw .TABLES],
    seq [kw .GRANT, kw .OPTION],
    seq [kw .REPLICATION, anyKw [.CLIENT, .SLAVE]]]

/-- What a privilege is about. -/
def grantIdentifier : Element :=
  choice [
    seq [sym .mult, opt (seq [sym .dot, sym .mult])],
    seq [rule .schemaRef, sym .dot, sym .mult],
    rule .tableRef]

/-- Accounts between commas. -/
def userList : Element := separated (rule .user) .comma

/-- An account, with the host that it comes from. -/
def user : Element :=
  seq [
    choice [ident, rule .textString],
    opt (choice [seq [sym .atSign, choice [ident, rule .textString]], ident])]

/-- Analyzes, checks, optimizes or repairs tables. -/
def tableAdministrationStatement : Element :=
  choice [
    seq [kw .ANALYZE, opt (rule .noWriteToBinLog), kw .TABLE, rule .tableRefList],
    seq [
      kw .CHECK,
      kw .TABLE,
      rule .tableRefList,
      star (anyKw [.UPGRADE, .QUICK, .FAST, .MEDIUM, .EXTENDED, .CHANGED])],
    seq [kw .CHECKSUM, kw .TABLE, rule .tableRefList, opt (anyKw [.QUICK, .EXTENDED])],
    seq [kw .OPTIMIZE, opt (rule .noWriteToBinLog), kw .TABLE, rule .tableRefList],
    seq [
      kw .REPAIR,
      opt (rule .noWriteToBinLog),
      kw .TABLE,
      rule .tableRefList,
      star (anyKw [.QUICK, .EXTENDED, .USE_FRM])]]

/-- Keeps a statement out of the binary log. -/
def noWriteToBinLog : Element := anyKw [.LOCAL, .NO_WRITE_TO_BINLOG]

/-- Adds or removes a plugin or, from 8.0.0 on, a component. -/
def installUninstallStatement : Element :=
  choice [
    seq [kw .INSTALL, kw .PLUGIN, ident, kw .SONAME, rule .textLiteral],
    since (.of 8 0 0) (seq [kw .INSTALL, kw .COMPONENT, separated (rule .textLiteral) .comma]),
    seq [kw .UNINSTALL, kw .PLUGIN, ident],
    since (.of 8 0 0) (seq [kw .UNINSTALL, kw .COMPONENT, separated (rule .textLiteral) .comma])]

/-- Sets variables. -/
def setStatement : Element :=
  seq [
    kw .SET,
    choice [
      seq [
        opt (anyKw [.GLOBAL, .SESSION]),
        kw .TRANSACTION,
        separated (rule .transactionCharacteristic) .comma],
      seq [kw .PASSWORD, sym .equal, rule .textLiteral],
      separated (rule .optionValue) .comma]]

/-- One variable with its value, or a character set. -/
def optionValue : Element :=
  choice [
    seq [
      opt (anyKw [.GLOBAL, .SESSION, .LOCAL, .PERSIST, .PERSIST_ONLY]),
      ident,
      opt (seq [sym .dot, ident]),
      anySym [.equal, .assign],
      choice [rule .expr, anyKw [.ON, .ALL, .BINARY, .ROW, .SYSTEM]]],
    seq [
      kw .NAMES,
      choice [seq [rule .charsetName, opt (seq [kw .COLLATE, ident])], kw .DEFAULT]],
    seq [rule .charset, choice [rule .charsetName, kw .DEFAULT]]]

/-- Shows what the server knows. -/
def showStatement : Element :=
  seq [
    kw .SHOW,
    choice [
      seq [kw .DATABASES, opt (rule .likeOrWhere)],
      seq [opt (kw .FULL), kw .TABLES, opt (rule .inDb), opt (rule .likeOrWhere)],
      seq [kw .TABLE, kw .STATUS, opt (rule .inDb), opt (rule .likeOrWhere)],
      seq [opt (kw .OPEN), kw .TABLES, opt (rule .inDb), opt (rule .likeOrWhere)],
      seq [
        opt (kw .FULL),
        kw .COLUMNS,
        anyKw [.FROM, .IN],
        rule .tableRef,
        opt (rule .inDb),
        opt (rule .likeOrWhere)],
      seq [
        anyKw [.INDEX, .INDEXES, .KEYS],
        anyKw [.FROM, .IN],
        rule .tableRef,
        opt (rule .inDb),
        opt (rule .whereClause)],
      seq [opt (kw .STORAGE), kw .ENGINES],
      seq [
        opt (anyKw [.GLOBAL, .SESSION]),
        anyKw [.STATUS, .VARIABLES],
        opt (rule .likeOrWhere)],
      seq [opt (kw .FULL), kw .PROCESSLIST],
      seq [anyKw [.WARNINGS, .ERRORS], opt (rule .simpleLimitClause)],
      seq [kw .GRANTS, opt (seq [kw .FOR, rule .user])],
      seq [
        kw .CREATE,
        choice [
          seq [kw .TABLE, rule .tableRef],
          seq [kw .DATABASE, opt (rule .ifNotExists), rule .schemaRef],
          seq [kw .VIEW, rule .viewRef]]],
      kw .PRIVILEGES,
      seq [anyKw [.BINARY, .MASTER], kw .LOGS],
      seq [anyKw [.MASTER, .SLAVE], kw .STATUS],
      kw .PLUGINS,
      seq [anyKw [.TRIGGERS, .EVENTS], opt (rule .inDb), opt (rule .likeOrWhere)],
      seq [rule .charset, opt (rule .likeOrWhere)],
      seq [kw .COLLATION, opt (rule .likeOrWhere)]]]

/-- The database that something is shown of. -/
def inDb : Element := seq [anyKw [.FROM, .IN], rule .schemaRef]

/-- Which of the rows are shown. -/
def likeOrWhere : Element := choice [seq [kw .LIKE, rule .textString], rule .whereClause]

/-- Logs, caches, connections and shutdown. -/
def otherAdministrativeStatement : Element :=
  choice [
    seq [kw .BINLOG, rule .textLiteral],
    seq [
      kw .CACHE,
      kw .INDEX,
      separated (seq [
        rule .tableRef,
        opt (seq [rule .indexOrKey, rule .identifierListWithParentheses])]) .comma,
      kw .IN,
      choice [ident, kw .DEFAULT]],
    seq [
      kw .FLUSH,
      opt (rule .noWriteToBinLog),
      choice [
        seq [
          anyKw [.TABLES, .TABLE],
          opt (rule .tableRefList),
          opt (seq [kw .WITH, kw .READ, kw .LOCK])],
        separated (rule .flushOption) .comma]],
    seq [kw .KILL, opt (anyKw [.CONNECTION, .QUERY]), rule .expr],
    since (.of 8 0 3) (kw .SHUTDOWN)]

/-- One thing that is flushed. -/
def flushOption : Element :=
  choice [
    seq [opt (anyKw [.BINARY, .ENGINE, .ERROR, .GENERAL, .RELAY, .SLOW]), kw .LOGS],
    anyKw [.HOSTS, .PRIVILEGES, .STATUS, .USER_RESOURCES],
    since (.of 8 0 0) (kw .OPTIMIZER_COSTS)]

end SqlCompletion.Mysql
