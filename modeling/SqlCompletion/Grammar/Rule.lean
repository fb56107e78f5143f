set_option autoImplicit false

/-!
# Rules

The names that a grammar gives to its productions. Five of them, the preferred rules, stand for
a reference to a table or a column: at the caret they are reported as a whole.
-/

namespace SqlCompletion

/-- The name of a production. -/
inductive Rule where
  | accountManagementStatement | alterDatabase | alterListItem | alterStatement | alterTable
  | alterTableActions | alterView | beginWork | bitExpr | boolPri | boolTerm | callStatement
  | castType | changeMaster | changeReplication | charset | charsetClause | charsetName
  | charsetWithOptBinary | checkConstraint | columnAttribute | columnDefinition
  | columnInternalRef | columnRef | commonTableExpression | compOp | constraintName
  | createDatabase | createDatabaseOption | createIndex | createStatement | createTable
  | createTableOption | createTableOptions | createView | dataType | deleteOption
  | deleteStatement | derivedTable | describeStatement | direction | doStatement | dropStatement
  | elseExpression | explainStatement | expr | exprList | fieldDefinition | fieldLength
  | fieldOptions | fields | fieldsClause | filterDefinition | filterTableRef | floatOptions
  | flushOption | fromClause | fulltextOptions | functionCall | grantIdentifier | groupByClause
  | handlerReadOrScan | handlerStatement | havingClause | helpCommand
  | identifierListWithParentheses | ifExists | ifNotExists | inDb | indexHint | indexHintClause
  | indexHintList | indexList | indexOption | indexOrKey | innerJoinType | insertFromConstructor
  | insertIdentifier | insertQueryExpression | insertStatement | insertUpdateList | insertValues
  | installUninstallStatement | interval | intoClause | joinCondition | joinedTable | keyList
  | likeOrWhere | limitClause | limitOption | limitOptions | linesClause | literal | loadStatement
  | lockItem | lockStatement | lockingClause | masterOption | naturalJoinType | noWriteToBinLog
  | not2Rule | notRule | numLiteral | olapOption | optionValue | orderClause | orderExpression
  | orderList | otherAdministrativeStatement | outerJoinType | place | precision | predicate
  | predicateOperations | preparedStatement | privilegeList | privilegeType | procedureRef | query
  | queryExpression | queryExpressionBody | queryPrimary | querySpecification | referencesClause
  | renameTableStatement | replaceStatement | replicationStatement | runtimeFunctionCall
  | savepointStatement | schemaRef | selectAlias | selectItem | selectItemList | selectOption
  | selectStatement | setStatement | showStatement | signedLiteral | simpleExpr
  | simpleExprWithParentheses | simpleLimitClause | simpleStatement | singleTable | stringList
  | subquery | sumExpr | tableAdministrationStatement | tableAlias | tableAliasRefList
  | tableConstraintDef | tableElement | tableElementList | tableFactor | tableName | tableRef
  | tableRefList | tableReference | tableReferenceList | tableWild | temporalLiteral | textLiteral
  | textString | textStringLiteral | thenExpression | transactionCharacteristic
  | transactionOrLockingStatement | transactionStatement | truncateTableStatement
  | typeDatetimePrecision | updateElement | updateList | updateStatement | useCommand
  | usePartition | user | userList | utilityStatement | valueList | values | viewAlgorithm
  | viewCheckOption | viewRef | whenExpression | whereClause | windowClause | windowDefinition
  | windowFrameBound | windowFrameClause | windowFunctionCall | windowSpec | windowingClause
  | withClause | xaStatement | xid
  deriving DecidableEq, Repr, Inhabited

namespace Rule

/-- Every rule, in the order of their names. -/
def all : List Rule :=
  [.accountManagementStatement, .alterDatabase, .alterListItem, .alterStatement, .alterTable,
   .alterTableActions, .alterView, .beginWork, .bitExpr, .boolPri, .boolTerm, .callStatement,
   .castType, .changeMaster, .changeReplication, .charset, .charsetClause, .charsetName,
   .charsetWithOptBinary, .checkConstraint, .columnAttribute, .columnDefinition,
   .columnInternalRef, .columnRef, .commonTableExpression, .compOp, .constraintName,
   .createDatabase, .createDatabaseOption, .createIndex, .createStatement, .createTable,
   .createTableOption, .createTableOptions, .createView, .dataType, .deleteOption,
   .deleteStatement, .derivedTable, .describeStatement, .direction, .doStatement, .dropStatement,
   .elseExpression, .explainStatement, .expr, .exprList, .fieldDefinition, .fieldLength,
   .fieldOptions, .fields, .fieldsClause, .filterDefinition, .filterTableRef, .floatOptions,
   .flushOption, .fromClause, .fulltextOptions, .functionCall, .grantIdentifier, .groupByClause,
   .handlerReadOrScan, .handlerStatement, .havingClause, .helpCommand,
   .identifierListWithParentheses, .ifExists, .ifNotExists, .inDb, .indexHint, .indexHintClause,
   .indexHintList, .indexList, .indexOption, .indexOrKey, .innerJoinType, .insertFromConstructor,
   .insertIdentifier, .insertQueryExpression, .insertStatement, .insertUpdateList, .insertValues,
   .installUninstallStatement, .interval, .intoClause, .joinCondition, .joinedTable, .keyList,
   .likeOrWhere, .limitClause, .limitOption, .limitOptions, .linesClause, .literal,
   .loadStatement, .lockItem, .lockStatement, .lockingClause, .masterOption, .naturalJoinType,
   .noWriteToBinLog, .not2Rule, .notRule, .numLiteral, .olapOption, .optionValue, .orderClause,
   .orderExpression, .orderList, .otherAdministrativeStatement, .outerJoinType, .place,
   .precision, .predicate, .predicateOperations, .preparedStatement, .privilegeList,
   .privilegeType, .procedureRef, .query, .queryExpression, .queryExpressionBody, .queryPrimary,
   .querySpecification, .referencesClause, .renameTableStatement, .replaceStatement,
   .replicationStatement, .runtimeFunctionCall, .savepointStatement, .schemaRef, .selectAlias,
   .selectItem, .selectItemList, .selectOption, .selectStatement, .setStatement, .showStatement,
   .signedLiteral, .simpleExpr, .simpleExprWithParentheses, .simpleLimitClause, .simpleStatement,
   .singleTable, .stringList, .subquery, .sumExpr, .tableAdministrationStatement, .tableAlias,
   .tableAliasRefList, .tableConstraintDef, .tableElement, .tableElementList, .tableFactor,
   .tableName, .tableRef, .tableRefList, .tableReference, .tableReferenceList, .tableWild,
   .temporalLiteral, .textLiteral, .textString, .textStringLiteral, .thenExpression,
   .transactionCharacteristic, .transactionOrLockingStatement, .transactionStatement,
   .truncateTableStatement, .typeDatetimePrecision, .updateElement, .updateList, .updateStatement,
   .useCommand, .usePartition, .user, .userList, .utilityStatement, .valueList, .values,
   .viewAlgorithm, .viewCheckOption, .viewRef, .whenExpression, .whereClause, .windowClause,
   .windowDefinition, .windowFrameBound, .windowFrameClause, .windowFunctionCall, .windowSpec,
   .windowingClause, .withClause, .xaStatement, .xid]

theorem ctorIdx_inj {r s : Rule} (h : r.ctorIdx = s.ctorIdx) : r = s := by
  rw [← ofNat_ctorIdx r, h, ofNat_ctorIdx]

/-- The rules are listed in the order of their constructors. -/
theorem map_ctorIdx_all : all.map Rule.ctorIdx = List.range 195 := by decide +kernel

theorem mem_all (r : Rule) : r ∈ all := by
  have hindex : r.ctorIdx ∈ all.map Rule.ctorIdx := by
    rw [map_ctorIdx_all, List.mem_range]
    cases r <;> decide
  obtain ⟨s, hs, hsame⟩ := List.mem_map.1 hindex
  exact ctorIdx_inj hsame ▸ hs

theorem nodup_all : all.Nodup := by
  have hindices : (all.map Rule.ctorIdx).Nodup := by
    rw [map_ctorIdx_all]
    exact List.nodup_range
  exact List.Pairwise.of_map Rule.ctorIdx (fun _ _ hne heq => hne (congrArg _ heq)) hindices

/-- The name as the grammar writes it. -/
def name : Rule → String
  | .accountManagementStatement => "accountManagementStatement"
  | .alterDatabase => "alterDatabase"
  | .alterListItem => "alterListItem"
  | .alterStatement => "alterStatement"
  | .alterTable => "alterTable"
  | .alterTableActions => "alterTableActions"
  | .alterView => "alterView"
  | .beginWork => "beginWork"
  | .bitExpr => "bitExpr"
  | .boolPri => "boolPri"
  | .boolTerm => "boolTerm"
  | .callStatement => "callStatement"
  | .castType => "castType"
  | .changeMaster => "changeMaster"
  | .changeReplication => "changeReplication"
  | .charset => "charset"
  | .charsetClause => "charsetClause"
  | .charsetName => "charsetName"
  | .charsetWithOptBinary => "charsetWithOptBinary"
  | .checkConstraint => "checkConstraint"
  | .columnAttribute => "columnAttribute"
  | .columnDefinition => "columnDefinition"
  | .columnInternalRef => "columnInternalRef"
  | .columnRef => "columnRef"
  | .commonTableExpression => "commonTableExpression"
  | .compOp => "compOp"
  | .constraintName => "constraintName"
  | .createDatabase => "createDatabase"
  | .createDatabaseOption => "createDatabaseOption"
  | .createIndex => "createIndex"
  | .createStatement => "createStatement"
  | .createTable => "createTable"
  | .createTableOption => "createTableOption"
  | .createTableOptions => "createTableOptions"
  | .createView => "createView"
  | .dataType => "dataType"
  | .deleteOption => "deleteOption"
  | .deleteStatement => "deleteStatement"
  | .derivedTable => "derivedTable"
  | .describeStatement => "describeStatement"
  | .direction => "direction"
  | .doStatement => "doStatement"
  | .dropStatement => "dropStatement"
  | .elseExpression => "elseExpression"
  | .explainStatement => "explainStatement"
  | .expr => "expr"
  | .exprList => "exprList"
  | .fieldDefinition => "fieldDefinition"
  | .fieldLength => "fieldLength"
  | .fieldOptions => "fieldOptions"
  | .fields => "fields"
  | .fieldsClause => "fieldsClause"
  | .filterDefinition => "filterDefinition"
  | .filterTableRef => "filterTableRef"
  | .floatOptions => "floatOptions"
  | .flushOption => "flushOption"
  | .fromClause => "fromClause"
  | .fulltextOptions => "fulltextOptions"
  | .functionCall => "functionCall"
  | .grantIdentifier => "grantIdentifier"
  | .groupByClause => "groupByClause"
  | .handlerReadOrScan => "handlerReadOrScan"
  | .handlerStatement => "handlerStatement"
  | .havingClause => "havingClause"
  | .helpCommand => "helpCommand"
  | .identifierListWithParentheses => "identifierListWithParentheses"
  | .ifExists => "ifExists"
  | .ifNotExists => "ifNotExists"
  | .inDb => "inDb"
  | .indexHint => "indexHint"
  | .indexHintClause => "indexHintClause"
  | .indexHintList => "indexHintList"
  | .indexList => "indexList"
  | .indexOption => "indexOption"
  | .indexOrKey => "indexOrKey"
  | .innerJoinType => "innerJoinType"
  | .insertFromConstructor => "insertFromConstructor"
  | .insertIdentifier => "insertIdentifier"
  | .insertQueryExpression => "insertQueryExpression"
  | .insertStatement => "insertStatement"
  | .insertUpdateList => "insertUpdateList"
  | .insertValues => "insertValues"
  | .installUninstallStatement => "installUninstallStatement"
  | .interval => "interval"
  | .intoClause => "intoClause"
  | .joinCondition => "joinCondition"
  | .joinedTable => "joinedTable"
  | .keyList => "keyList"
  | .likeOrWhere => "likeOrWhere"
  | .limitClause => "limitClause"
  | .limitOption => "limitOption"
  | .limitOptions => "limitOptions"
  | .linesClause => "linesClause"
  | .literal => "literal"
  | .loadStatement => "loadStatement"
  | .lockItem => "lockItem"
  | .lockStatement => "lockStatement"
  | .lockingClause => "lockingClause"
  | .masterOption => "masterOption"
  | .naturalJoinType => "naturalJoinType"
  | .noWriteToBinLog => "noWriteToBinLog"
  | .not2Rule => "not2Rule"
  | .notRule => "notRule"
  | .numLiteral => "numLiteral"
  | .olapOption => "olapOption"
  | .optionValue => "optionValue"
  | .orderClause => "orderClause"
  | .orderExpression => "orderExpression"
  | .orderList => "orderList"
  | .otherAdministrativeStatement => "otherAdministrativeStatement"
  | .outerJoinType => "outerJoinType"
  | .place => "place"
  | .precision => "precision"
  | .predicate => "predicate"
  | .predicateOperations => "predicateOperations"
  | .preparedStatement => "preparedStatement"
  | .privilegeList => "privilegeList"
  | .privilegeType => "privilegeType"
  | .procedureRef => "procedureRef"
  | .query => "query"
  | .queryExpression => "queryExpression"
  | .queryExpressionBody => "queryExpressionBody"
  | .queryPrimary => "queryPrimary"
  | .querySpecification => "querySpecification"
  | .referencesClause => "referencesClause"
  | .renameTableStatement => "renameTableStatement"
  | .replaceStatement => "replaceStatement"
  | .replicationStatement => "replicationStatement"
  | .runtimeFunctionCall => "runtimeFunctionCall"
  | .savepointStatement => "savepointStatement"
  | .schemaRef => "schemaRef"
  | .selectAlias => "selectAlias"
  | .selectItem => "selectItem"
  | .selectItemList => "selectItemList"
  | .selectOption => "selectOption"
  | .selectStatement => "selectStatement"
  | .setStatement => "setStatement"
  | .showStatement => "showStatement"
  | .signedLiteral => "signedLiteral"
  | .simpleExpr => "simpleExpr"
  | .simpleExprWithParentheses => "simpleExprWithParentheses"
  | .simpleLimitClause => "simpleLimitClause"
  | .simpleStatement => "simpleStatement"
  | .singleTable => "singleTable"
  | .stringList => "stringList"
  | .subquery => "subquery"
  | .sumExpr => "sumExpr"
  | .tableAdministrationStatement => "tableAdministrationStatement"
  | .tableAlias => "tableAlias"
  | .tableAliasRefList => "tableAliasRefList"
  | .tableConstraintDef => "tableConstraintDef"
  | .tableElement => "tableElement"
  | .tableElementList => "tableElementList"
  | .tableFactor => "tableFactor"
  | .tableName => "tableName"
  | .tableRef => "tableRef"
  | .tableRefList => "tableRefList"
  | .tableReference => "tableReference"
  | .tableReferenceList => "tableReferenceList"
  | .tableWild => "tableWild"
  | .temporalLiteral => "temporalLiteral"
  | .textLiteral => "textLiteral"
  | .textString => "textString"
  | .textStringLiteral => "textStringLiteral"
  | .thenExpression => "thenExpression"
  | .transactionCharacteristic => "transactionCharacteristic"
  | .transactionOrLockingStatement => "transactionOrLockingStatement"
  | .transactionStatement => "transactionStatement"
  | .truncateTableStatement => "truncateTableStatement"
  | .typeDatetimePrecision => "typeDatetimePrecision"
  | .updateElement => "updateElement"
  | .updateList => "updateList"
  | .updateStatement => "updateStatement"
  | .useCommand => "useCommand"
  | .usePartition => "usePartition"
  | .user => "user"
  | .userList => "userList"
  | .utilityStatement => "utilityStatement"
  | .valueList => "valueList"
  | .values => "values"
  | .viewAlgorithm => "viewAlgorithm"
  | .viewCheckOption => "viewCheckOption"
  | .viewRef => "viewRef"
  | .whenExpression => "whenExpression"
  | .whereClause => "whereClause"
  | .windowClause => "windowClause"
  | .windowDefinition => "windowDefinition"
  | .windowFrameBound => "windowFrameBound"
  | .windowFrameClause => "windowFrameClause"
  | .windowFunctionCall => "windowFunctionCall"
  | .windowSpec => "windowSpec"
  | .windowingClause => "windowingClause"
  | .withClause => "withClause"
  | .xaStatement => "xaStatement"
  | .xid => "xid"

/-- The rule of that name. -/
def ofName? (name : String) : Option Rule :=
  all.find? fun r => r.name == name

/-- Rules that name a table or a column, reported as a whole and not by their terminals. -/
def isPreferred : Rule → Bool
  | .tableRef | .filterTableRef | .tableWild | .columnRef | .columnInternalRef => true
  | _ => false

end Rule

end SqlCompletion
