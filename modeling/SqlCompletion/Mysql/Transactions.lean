import SqlCompletion.Grammar.Element
set_option autoImplicit false

/-!
# Transactions

Transactions, savepoints, table locks and distributed transactions.
-/

namespace SqlCompletion.Mysql

open Element

/-- Statements about transactions and locks. -/
def transactionOrLockingStatement : Element :=
  choice [
    rule .transactionStatement,
    rule .savepointStatement,
    rule .lockStatement,
    rule .xaStatement]

/-- Starts a transaction, or ends it well. -/
def transactionStatement : Element :=
  choice [
    seq [kw .START, kw .TRANSACTION, opt (separated (rule .transactionCharacteristic) .comma)],
    seq [
      kw .COMMIT,
      opt (kw .WORK),
      opt (seq [kw .AND, opt (kw .NO), kw .CHAIN]),
      opt (seq [opt (kw .NO), kw .RELEASE])]]

/-- The short way to start a transaction. -/
def beginWork : Element := seq [kw .BEGIN, opt (kw .WORK)]

/-- What a transaction sees, and whether it may write. -/
def transactionCharacteristic : Element :=
  choice [seq [kw .WITH, kw .CONSISTENT, kw .SNAPSHOT], seq [kw .READ, anyKw [.WRITE, .ONLY]]]

/-- Sets a savepoint, goes back, or gives it up. -/
def savepointStatement : Element :=
  choice [
    seq [kw .SAVEPOINT, ident],
    seq [
      kw .ROLLBACK,
      opt (kw .WORK),
      choice [
        seq [kw .TO, opt (kw .SAVEPOINT), ident],
        seq [
          opt (seq [kw .AND, opt (kw .NO), kw .CHAIN]),
          opt (seq [opt (kw .NO), kw .RELEASE])]]],
    seq [kw .RELEASE, kw .SAVEPOINT, ident]]

/-- Locks tables, or unlocks all of them. -/
def lockStatement : Element :=
  choice [
    seq [kw .LOCK, anyKw [.TABLES, .TABLE], separated (rule .lockItem) .comma],
    seq [kw .UNLOCK, anyKw [.TABLES, .TABLE]]]

/-- One table to lock, and how. -/
def lockItem : Element :=
  seq [
    rule .tableRef,
    opt (rule .tableAlias),
    choice [seq [kw .READ, opt (kw .LOCAL)], seq [opt (kw .LOW_PRIORITY), kw .WRITE]]]

/-- The steps of a distributed transaction. -/
def xaStatement : Element :=
  seq [
    kw .XA,
    choice [
      seq [anyKw [.START, .BEGIN], rule .xid, opt (anyKw [.JOIN, .RESUME])],
      seq [kw .END, rule .xid, opt (seq [kw .SUSPEND, opt (seq [kw .FOR, kw .MIGRATE])])],
      seq [kw .PREPARE, rule .xid],
      seq [kw .COMMIT, rule .xid, opt (seq [kw .ONE, kw .PHASE])],
      seq [kw .ROLLBACK, rule .xid],
      kw .RECOVER]]

/-- The name of a distributed transaction, in up to three parts. -/
def xid : Element :=
  seq [
    rule .textString,
    opt (seq [sym .comma, rule .textString, opt (seq [sym .comma, sym .intNumber])])]

end SqlCompletion.Mysql
