import SqlCompletion.Grammar.Element
set_option autoImplicit false

/-!
# Replication

Binary logs, replication sources and filters.
-/

namespace SqlCompletion.Mysql

open Element

/-- Statements about binary logs and replication. -/
def replicationStatement : Element :=
  choice [
    seq [
      kw .PURGE,
      anyKw [.BINARY, .MASTER],
      kw .LOGS,
      choice [seq [kw .TO, rule .textLiteral], seq [kw .BEFORE, rule .expr]]],
    rule .changeMaster,
    since (.of 5 7 3) (rule .changeReplication),
    seq [
      kw .RESET,
      choice [
        kw .MASTER,
        seq [kw .SLAVE, opt (kw .ALL)],
        before (.of 8 0 0) (seq [kw .QUERY, kw .CACHE])]],
    seq [kw .START, kw .SLAVE],
    seq [kw .STOP, kw .SLAVE]]

/-- Settings of the server that is followed. -/
def changeMaster : Element :=
  seq [
    kw .CHANGE,
    kw .MASTER,
    kw .TO,
    separated (seq [
      rule .masterOption,
      sym .equal,
      choice [rule .textLiteral, sym .intNumber]]) .comma]

/-- One setting of the server that is followed. -/
def masterOption : Element :=
  anyKw [
    .MASTER_HOST, .MASTER_USER, .MASTER_PASSWORD, .MASTER_PORT, .MASTER_LOG_FILE,
    .MASTER_LOG_POS]

/-- Filters of what is followed. -/
def changeReplication : Element :=
  seq [kw .CHANGE, kw .REPLICATION, kw .FILTER, separated (rule .filterDefinition) .comma]

/-- One filter: databases, tables, or patterns of tables. -/
def filterDefinition : Element :=
  choice [
    seq [
      anyKw [.REPLICATE_DO_DB, .REPLICATE_IGNORE_DB],
      sym .equal,
      sym .openPar,
      opt (separated (rule .schemaRef) .comma),
      sym .closePar],
    seq [
      anyKw [.REPLICATE_DO_TABLE, .REPLICATE_IGNORE_TABLE],
      sym .equal,
      sym .openPar,
      opt (separated (rule .filterTableRef) .comma),
      sym .closePar],
    seq [
      anyKw [.REPLICATE_WILD_DO_TABLE, .REPLICATE_WILD_IGNORE_TABLE],
      sym .equal,
      sym .openPar,
      opt (separated (rule .textString) .comma),
      sym .closePar]]

end SqlCompletion.Mysql
