import SqlCompletion.Grammar.Element
set_option autoImplicit false

/-!
# Statements

What a text holds: one statement, which ends at a semicolon or at the end of the text.
-/

namespace SqlCompletion.Mysql

open Element

/-- A whole text: nothing, or one statement that a semicolon or the end of the text closes. -/
def query : Element :=
  choice [
    sym .eof,
    seq [
      choice [rule .simpleStatement, rule .beginWork],
      choice [seq [sym .semicolon, opt (sym .eof)], sym .eof]]]

/-- Any statement but `BEGIN`. -/
def simpleStatement : Element :=
  choice [
    rule .alterStatement,
    rule .createStatement,
    rule .dropStatement,
    rule .renameTableStatement,
    rule .truncateTableStatement,
    rule .callStatement,
    rule .deleteStatement,
    rule .doStatement,
    rule .handlerStatement,
    rule .insertStatement,
    rule .loadStatement,
    rule .replaceStatement,
    rule .selectStatement,
    rule .updateStatement,
    rule .transactionOrLockingStatement,
    rule .replicationStatement,
    rule .preparedStatement,
    rule .accountManagementStatement,
    rule .tableAdministrationStatement,
    rule .installUninstallStatement,
    rule .setStatement,
    rule .showStatement,
    rule .otherAdministrativeStatement,
    rule .utilityStatement]

end SqlCompletion.Mysql
