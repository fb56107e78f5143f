import SqlCompletion.Mysql.Statements
import SqlCompletion.Mysql.Select
import SqlCompletion.Mysql.TableSources
import SqlCompletion.Mysql.Expressions
import SqlCompletion.Mysql.Functions
import SqlCompletion.Mysql.DataManipulation
import SqlCompletion.Mysql.DataDefinition
import SqlCompletion.Mysql.Transactions
import SqlCompletion.Mysql.Replication
import SqlCompletion.Mysql.Administration
import SqlCompletion.Mysql.Utility
import SqlCompletion.Mysql.Names
import SqlCompletion.Mysql.Literals
import SqlCompletion.Grammar.Basic
set_option autoImplicit false

/-!
# The MySQL grammar

Every rule has a body, and a text is read from the rule `query`.
-/

namespace SqlCompletion.Mysql

/-- The body of a rule. -/
def body : Rule → Element
  | .accountManagementStatement => accountManagementStatement
  | .alterDatabase => alterDatabase
  | .alterListItem => alterListItem
  | .alterStatement => alterStatement
  | .alterTable => alterTable
  | .alterTableActions => alterTableActions
  | .alterView => alterView
  | .beginWork => beginWork
  | .bitExpr => bitExpr
  | .boolPri => boolPri
  | .boolTerm => boolTerm
  | .callStatement => callStatement
  | .castType => castType
  | .changeMaster => changeMaster
  | .changeReplication => changeReplication
  | .charset => charset
  | .charsetClause => charsetClause
  | .charsetName => charsetName
  | .charsetWithOptBinary => charsetWithOptBinary
  | .checkConstraint => checkConstraint
  | .columnAttribute => columnAttribute
  | .columnDefinition => columnDefinition
  | .columnInternalRef => columnInternalRef
  | .columnRef => columnRef
  | .commonTableExpression => commonTableExpression
  | .compOp => compOp
  | .constraintName => constraintName
  | .createDatabase => createDatabase
  | .createDatabaseOption => createDatabaseOption
  | .createIndex => createIndex
  | .createStatement => createStatement
  | .createTable => createTable
  | .createTableOption => createTableOption
  | .createTableOptions => createTableOptions
  | .createView => createView
  | .dataType => dataType
  | .deleteOption => deleteOption
  | .deleteStatement => deleteStatement
  | .derivedTable => derivedTable
  | .describeStatement => describeStatement
  | .direction => direction
  | .doStatement => doStatement
  | .dropStatement => dropStatement
  | .elseExpression => elseExpression
  | .explainStatement => explainStatement
  | .expr => expr
  | .exprList => exprList
  | .fieldDefinition => fieldDefinition
  | .fieldLength => fieldLength
  | .fieldOptions => fieldOptions
  | .fields => fields
  | .fieldsClause => fieldsClause
  | .filterDefinition => filterDefinition
  | .filterTableRef => filterTableRef
  | .floatOptions => floatOptions
  | .flushOption => flushOption
  | .fromClause => fromClause
  | .fulltextOptions => fulltextOptions
  | .functionCall => functionCall
  | .grantIdentifier => grantIdentifier
  | .groupByClause => groupByClause
  | .handlerReadOrScan => handlerReadOrScan
  | .handlerStatement => handlerStatement
  | .havingClause => havingClause
  | .helpCommand => helpCommand
  | .identifierListWithParentheses => identifierListWithParentheses
  | .ifExists => ifExists
  | .ifNotExists => ifNotExists
  | .inDb => inDb
  | .indexHint => indexHint
  | .indexHintClause => indexHintClause
  | .indexHintList => indexHintList
  | .indexList => indexList
  | .indexOption => indexOption
  | .indexOrKey => indexOrKey
  | .innerJoinType => innerJoinType
  | .insertFromConstructor => insertFromConstructor
  | .insertIdentifier => insertIdentifier
  | .insertQueryExpression => insertQueryExpression
  | .insertStatement => insertStatement
  | .insertUpdateList => insertUpdateList
  | .insertValues => insertValues
  | .installUninstallStatement => installUninstallStatement
  | .interval => interval
  | .intoClause => intoClause
  | .joinCondition => joinCondition
  | .joinedTable => joinedTable
  | .keyList => keyList
  | .likeOrWhere => likeOrWhere
  | .limitClause => limitClause
  | .limitOption => limitOption
  | .limitOptions => limitOptions
  | .linesClause => linesClause
  | .literal => literal
  | .loadStatement => loadStatement
  | .lockItem => lockItem
  | .lockStatement => lockStatement
  | .lockingClause => lockingClause
  | .masterOption => masterOption
  | .naturalJoinType => naturalJoinType
  | .noWriteToBinLog => noWriteToBinLog
  | .not2Rule => not2Rule
  | .notRule => notRule
  | .numLiteral => numLiteral
  | .olapOption => olapOption
  | .optionValue => optionValue
  | .orderClause => orderClause
  | .orderExpression => orderExpression
  | .orderList => orderList
  | .otherAdministrativeStatement => otherAdministrativeStatement
  | .outerJoinType => outerJoinType
  | .place => place
  | .precision => precision
  | .predicate => predicate
  | .predicateOperations => predicateOperations
  | .preparedStatement => preparedStatement
  | .privilegeList => privilegeList
  | .privilegeType => privilegeType
  | .procedureRef => procedureRef
  | .query => query
  | .queryExpression => queryExpression
  | .queryExpressionBody => queryExpressionBody
  | .queryPrimary => queryPrimary
  | .querySpecification => querySpecification
  | .referencesClause => referencesClause
  | .renameTableStatement => renameTableStatement
  | .replaceStatement => replaceStatement
  | .replicationStatement => replicationStatement
  | .runtimeFunctionCall => runtimeFunctionCall
  | .savepointStatement => savepointStatement
  | .schemaRef => schemaRef
  | .selectAlias => selectAlias
  | .selectItem => selectItem
  | .selectItemList => selectItemList
  | .selectOption => selectOption
  | .selectStatement => selectStatement
  | .setStatement => setStatement
  | .showStatement => showStatement
  | .signedLiteral => signedLiteral
  | .simpleExpr => simpleExpr
  | .simpleExprWithParentheses => simpleExprWithParentheses
  | .simpleLimitClause => simpleLimitClause
  | .simpleStatement => simpleStatement
  | .singleTable => singleTable
  | .stringList => stringList
  | .subquery => subquery
  | .sumExpr => sumExpr
  | .tableAdministrationStatement => tableAdministrationStatement
  | .tableAlias => tableAlias
  | .tableAliasRefList => tableAliasRefList
  | .tableConstraintDef => tableConstraintDef
  | .tableElement => tableElement
  | .tableElementList => tableElementList
  | .tableFactor => tableFactor
  | .tableName => tableName
  | .tableRef => tableRef
  | .tableRefList => tableRefList
  | .tableReference => tableReference
  | .tableReferenceList => tableReferenceList
  | .tableWild => tableWild
  | .temporalLiteral => temporalLiteral
  | .textLiteral => textLiteral
  | .textString => textString
  | .textStringLiteral => textStringLiteral
  | .thenExpression => thenExpression
  | .transactionCharacteristic => transactionCharacteristic
  | .transactionOrLockingStatement => transactionOrLockingStatement
  | .transactionStatement => transactionStatement
  | .truncateTableStatement => truncateTableStatement
  | .typeDatetimePrecision => typeDatetimePrecision
  | .updateElement => updateElement
  | .updateList => updateList
  | .updateStatement => updateStatement
  | .useCommand => useCommand
  | .usePartition => usePartition
  | .user => user
  | .userList => userList
  | .utilityStatement => utilityStatement
  | .valueList => valueList
  | .values => values
  | .viewAlgorithm => viewAlgorithm
  | .viewCheckOption => viewCheckOption
  | .viewRef => viewRef
  | .whenExpression => whenExpression
  | .whereClause => whereClause
  | .windowClause => windowClause
  | .windowDefinition => windowDefinition
  | .windowFrameBound => windowFrameBound
  | .windowFrameClause => windowFrameClause
  | .windowFunctionCall => windowFunctionCall
  | .windowSpec => windowSpec
  | .windowingClause => windowingClause
  | .withClause => withClause
  | .xaStatement => xaStatement
  | .xid => xid

/-- The MySQL grammar. -/
def grammar : Grammar := ⟨.query, fun r => some (body r)⟩

end SqlCompletion.Mysql
