set_option autoImplicit false

/-!
# Keywords

The words of MySQL that carry a meaning of their own. A keyword is named by its primary
spelling; a few have further spellings (`SCHEMA` for `DATABASE`) that mean the same word. A
reserved keyword cannot stand where a name is expected unless it is quoted.
-/

namespace SqlCompletion

/-- A word with a meaning of its own, named by its primary spelling. -/
inductive Keyword where
  | ACTION | ADD | ADDDATE | AFTER | AGAINST | ALGORITHM | ALL | ALTER | ANALYZE | AND | ANY | AS
  | ASC | ASCII | AUTO_INCREMENT | AVG | BEFORE | BEGIN | BETWEEN | BIGINT | BINARY | BINLOG | BIT
  | BIT_AND | BIT_OR | BIT_XOR | BLOB | BOOL | BOOLEAN | BTREE | BY | CACHE | CALL | CASCADE
  | CASCADED | CASE | CAST | CHAIN | CHANGE | CHANGED | CHAR | CHARSET | CHECK | CHECKSUM | CLIENT
  | CLOSE | COALESCE | COLLATE | COLLATION | COLUMN | COLUMN_FORMAT | COLUMNS | COMMIT | COMPACT
  | COMPONENT | COMPRESSED | CONCURRENT | CONNECTION | CONSISTENT | CONSTRAINT | CONVERT | COUNT
  | CREATE | CROSS | CUME_DIST | CURDATE | CURRENT | CURRENT_DATE | CURRENT_TIME
  | CURRENT_TIMESTAMP | CURRENT_USER | CURTIME | DATA | DATABASE | DATABASES | DATE | DATE_ADD
  | DATE_SUB | DATETIME | DAY | DAY_HOUR | DAY_MICROSECOND | DAY_MINUTE | DAY_SECOND | DEALLOCATE
  | DECIMAL | DEFAULT | DELAYED | DELETE | DENSE_RANK | DESC | DESCRIBE | DISABLE | DISTINCT | DIV
  | DO | DOUBLE | DROP | DUAL | DUMPFILE | DUPLICATE | DYNAMIC | ELSE | ENABLE | ENCLOSED | END
  | ENFORCED | ENGINE | ENGINES | ENUM | ERROR | ERRORS | ESCAPE | ESCAPED | EVENT | EVENTS
  | EXCEPT | EXECUTE | EXISTS | EXPANSION | EXPLAIN | EXTENDED | EXTRACT | FALSE | FAST | FILE
  | FILTER | FIRST | FIRST_VALUE | FIXED | FLOAT | FLUSH | FOLLOWING | FOR | FORCE | FOREIGN
  | FORMAT | FROM | FULL | FULLTEXT | GENERAL | GEOMETRY | GLOBAL | GRANT | GRANTS | GROUP
  | GROUP_CONCAT | HANDLER | HASH | HAVING | HELP | HIGH_PRIORITY | HOSTS | HOUR
  | HOUR_MICROSECOND | HOUR_MINUTE | HOUR_SECOND | IF | IGNORE | IN | INDEX | INDEXES | INFILE
  | INNER | INSERT | INSTALL | INT | INTERSECT | INTERVAL | INTO | INVISIBLE | IS | JOIN | JSON
  | KEY | KEYS | KILL | LAG | LANGUAGE | LAST | LAST_VALUE | LATERAL | LEAD | LEFT | LIKE | LIMIT
  | LINES | LINESTRING | LOAD | LOCAL | LOCK | LOCKED | LOGS | LONGBLOB | LONGTEXT | LOW_PRIORITY
  | MASTER | MASTER_HOST | MASTER_LOG_FILE | MASTER_LOG_POS | MASTER_PASSWORD | MASTER_PORT
  | MASTER_USER | MATCH | MAX | MEDIUM | MEDIUMBLOB | MEDIUMINT | MEDIUMTEXT | MEMBER | MERGE
  | MICROSECOND | MIGRATE | MIN | MINUTE | MINUTE_MICROSECOND | MINUTE_SECOND | MOD | MODE
  | MODIFY | MONTH | NAMES | NATURAL | NCHAR | NEXT | NO | NO_WRITE_TO_BINLOG | NOT | NOW | NOWAIT
  | NTH_VALUE | NTILE | NULL | NUMERIC | NVARCHAR | OF | OFFLINE | OFFSET | ON | ONE | ONLINE
  | ONLY | OPEN | OPTIMIZE | OPTIMIZER_COSTS | OPTION | OPTIONALLY | OR | ORDER | OUTER | OUTFILE
  | OVER | PARTITION | PARTITIONS | PASSWORD | PERCENT_RANK | PERSIST | PERSIST_ONLY | PHASE
  | PLUGIN | PLUGINS | POINT | POLYGON | PRECEDING | PRECISION | PREPARE | PREV | PRIMARY
  | PRIVILEGES | PROCESS | PROCESSLIST | PURGE | QUARTER | QUERY | QUICK | RANGE | RANK | READ
  | REAL | RECOVER | RECURSIVE | REDUNDANT | REFERENCES | REGEXP | RELAY | RELEASE | RELOAD
  | RENAME | REPAIR | REPEAT | REPLACE | REPLICATE_DO_DB | REPLICATE_DO_TABLE
  | REPLICATE_IGNORE_DB | REPLICATE_IGNORE_TABLE | REPLICATE_WILD_DO_TABLE
  | REPLICATE_WILD_IGNORE_TABLE | REPLICATION | RESET | RESTRICT | RESUME | REVOKE | RIGHT
  | ROLLBACK | ROLLUP | ROUTINE | ROW | ROW_FORMAT | ROW_NUMBER | ROWS | SAVEPOINT | SECOND
  | SECOND_MICROSECOND | SELECT | SEPARATOR | SERIAL | SESSION | SET | SHARE | SHOW | SHUTDOWN
  | SIGNED | SKIP | SLAVE | SLOW | SMALLINT | SNAPSHOT | SONAME | SOUNDS | SPATIAL
  | SQL_BIG_RESULT | SQL_BUFFER_RESULT | SQL_CALC_FOUND_ROWS | SQL_NO_CACHE | SQL_SMALL_RESULT
  | START | STARTING | STATUS | STD | STDDEV_SAMP | STOP | STORAGE | STRAIGHT_JOIN | SUBDATE
  | SUBSTRING | SUM | SUSPEND | SYSDATE | SYSTEM | TABLE | TABLES | TEMPORARY | TEMPTABLE
  | TERMINATED | TEXT | THEN | TIME | TIMESTAMP | TINYBLOB | TINYINT | TINYTEXT | TO | TRANSACTION
  | TRIGGER | TRIGGERS | TRIM | TRUE | TRUNCATE | UNBOUNDED | UNDEFINED | UNICODE | UNINSTALL
  | UNION | UNIQUE | UNKNOWN | UNLOCK | UNSIGNED | UPDATE | UPGRADE | USAGE | USE | USE_FRM | USER
  | USER_RESOURCES | USING | UTC_DATE | UTC_TIME | UTC_TIMESTAMP | VALUE | VALUES | VAR_SAMP
  | VARBINARY | VARCHAR | VARIABLES | VARIANCE | VIEW | VISIBLE | WARNINGS | WEEK | WEIGHT_STRING
  | WHEN | WHERE | WINDOW | WITH | WORK | WRITE | XA | XOR | YEAR | YEAR_MONTH | ZEROFILL
  deriving DecidableEq, Repr, Inhabited

namespace Keyword

/-- Every keyword, in alphabetical order. -/
def all : List Keyword :=
  [.ACTION, .ADD, .ADDDATE, .AFTER, .AGAINST, .ALGORITHM, .ALL, .ALTER, .ANALYZE, .AND, .ANY, .AS,
   .ASC, .ASCII, .AUTO_INCREMENT, .AVG, .BEFORE, .BEGIN, .BETWEEN, .BIGINT, .BINARY, .BINLOG,
   .BIT, .BIT_AND, .BIT_OR, .BIT_XOR, .BLOB, .BOOL, .BOOLEAN, .BTREE, .BY, .CACHE, .CALL,
   .CASCADE, .CASCADED, .CASE, .CAST, .CHAIN, .CHANGE, .CHANGED, .CHAR, .CHARSET, .CHECK,
   .CHECKSUM, .CLIENT, .CLOSE, .COALESCE, .COLLATE, .COLLATION, .COLUMN, .COLUMN_FORMAT, .COLUMNS,
   .COMMIT, .COMPACT, .COMPONENT, .COMPRESSED, .CONCURRENT, .CONNECTION, .CONSISTENT, .CONSTRAINT,
   .CONVERT, .COUNT, .CREATE, .CROSS, .CUME_DIST, .CURDATE, .CURRENT, .CURRENT_DATE,
   .CURRENT_TIME, .CURRENT_TIMESTAMP, .CURRENT_USER, .CURTIME, .DATA, .DATABASE, .DATABASES,
   .DATE, .DATE_ADD, .DATE_SUB, .DATETIME, .DAY, .DAY_HOUR, .DAY_MICROSECOND, .DAY_MINUTE,
   .DAY_SECOND, .DEALLOCATE, .DECIMAL, .DEFAULT, .DELAYED, .DELETE, .DENSE_RANK, .DESC, .DESCRIBE,
   .DISABLE, .DISTINCT, .DIV, .DO, .DOUBLE, .DROP, .DUAL, .DUMPFILE, .DUPLICATE, .DYNAMIC, .ELSE,
   .ENABLE, .ENCLOSED, .END, .ENFORCED, .ENGINE, .ENGINES, .ENUM, .ERROR, .ERRORS, .ESCAPE,
   .ESCAPED, .EVENT, .EVENTS, .EXCEPT, .EXECUTE, .EXISTS, .EXPANSION, .EXPLAIN, .EXTENDED,
   .EXTRACT, .FALSE, .FAST, .FILE, .FILTER, .FIRST, .FIRST_VALUE, .FIXED, .FLOAT, .FLUSH,
   .FOLLOWING, .FOR, .FORCE, .FOREIGN, .FORMAT, .FROM, .FULL, .FULLTEXT, .GENERAL, .GEOMETRY,
   .GLOBAL, .GRANT, .GRANTS, .GROUP, .GROUP_CONCAT, .HANDLER, .HASH, .HAVING, .HELP,
   .HIGH_PRIORITY, .HOSTS, .HOUR, .HOUR_MICROSECOND, .HOUR_MINUTE, .HOUR_SECOND, .IF, .IGNORE,
   .IN, .INDEX, .INDEXES, .INFILE, .INNER, .INSERT, .INSTALL, .INT, .INTERSECT, .INTERVAL, .INTO,
   .INVISIBLE, .IS, .JOIN, .JSON, .KEY, .KEYS, .KILL, .LAG, .LANGUAGE, .LAST, .LAST_VALUE,
   .LATERAL, .LEAD, .LEFT, .LIKE, .LIMIT, .LINES, .LINESTRING, .LOAD, .LOCAL, .LOCK, .LOCKED,
   .LOGS, .LONGBLOB, .LONGTEXT, .LOW_PRIORITY, .MASTER, .MASTER_HOST, .MASTER_LOG_FILE,
   .MASTER_LOG_POS, .MASTER_PASSWORD, .MASTER_PORT, .MASTER_USER, .MATCH, .MAX, .MEDIUM,
   .MEDIUMBLOB, .MEDIUMINT, .MEDIUMTEXT, .MEMBER, .MERGE, .MICROSECOND, .MIGRATE, .MIN, .MINUTE,
   .MINUTE_MICROSECOND, .MINUTE_SECOND, .MOD, .MODE, .MODIFY, .MONTH, .NAMES, .NATURAL, .NCHAR,
   .NEXT, .NO, .NO_WRITE_TO_BINLOG, .NOT, .NOW, .NOWAIT, .NTH_VALUE, .NTILE, .NULL, .NUMERIC,
   .NVARCHAR, .OF, .OFFLINE, .OFFSET, .ON, .ONE, .ONLINE, .ONLY, .OPEN, .OPTIMIZE,
   .OPTIMIZER_COSTS, .OPTION, .OPTIONALLY, .OR, .ORDER, .OUTER, .OUTFILE, .OVER, .PARTITION,
   .PARTITIONS, .PASSWORD, .PERCENT_RANK, .PERSIST, .PERSIST_ONLY, .PHASE, .PLUGIN, .PLUGINS,
   .POINT, .POLYGON, .PRECEDING, .PRECISION, .PREPARE, .PREV, .PRIMARY, .PRIVILEGES, .PROCESS,
   .PROCESSLIST, .PURGE, .QUARTER, .QUERY, .QUICK, .RANGE, .RANK, .READ, .REAL, .RECOVER,
   .RECURSIVE, .REDUNDANT, .REFERENCES, .REGEXP, .RELAY, .RELEASE, .RELOAD, .RENAME, .REPAIR,
   .REPEAT, .REPLACE, .REPLICATE_DO_DB, .REPLICATE_DO_TABLE, .REPLICATE_IGNORE_DB,
   .REPLICATE_IGNORE_TABLE, .REPLICATE_WILD_DO_TABLE, .REPLICATE_WILD_IGNORE_TABLE, .REPLICATION,
   .RESET, .RESTRICT, .RESUME, .REVOKE, .RIGHT, .ROLLBACK, .ROLLUP, .ROUTINE, .ROW, .ROW_FORMAT,
   .ROW_NUMBER, .ROWS, .SAVEPOINT, .SECOND, .SECOND_MICROSECOND, .SELECT, .SEPARATOR, .SERIAL,
   .SESSION, .SET, .SHARE, .SHOW, .SHUTDOWN, .SIGNED, .SKIP, .SLAVE, .SLOW, .SMALLINT, .SNAPSHOT,
   .SONAME, .SOUNDS, .SPATIAL, .SQL_BIG_RESULT, .SQL_BUFFER_RESULT, .SQL_CALC_FOUND_ROWS,
   .SQL_NO_CACHE, .SQL_SMALL_RESULT, .START, .STARTING, .STATUS, .STD, .STDDEV_SAMP, .STOP,
   .STORAGE, .STRAIGHT_JOIN, .SUBDATE, .SUBSTRING, .SUM, .SUSPEND, .SYSDATE, .SYSTEM, .TABLE,
   .TABLES, .TEMPORARY, .TEMPTABLE, .TERMINATED, .TEXT, .THEN, .TIME, .TIMESTAMP, .TINYBLOB,
   .TINYINT, .TINYTEXT, .TO, .TRANSACTION, .TRIGGER, .TRIGGERS, .TRIM, .TRUE, .TRUNCATE,
   .UNBOUNDED, .UNDEFINED, .UNICODE, .UNINSTALL, .UNION, .UNIQUE, .UNKNOWN, .UNLOCK, .UNSIGNED,
   .UPDATE, .UPGRADE, .USAGE, .USE, .USE_FRM, .USER, .USER_RESOURCES, .USING, .UTC_DATE,
   .UTC_TIME, .UTC_TIMESTAMP, .VALUE, .VALUES, .VAR_SAMP, .VARBINARY, .VARCHAR, .VARIABLES,
   .VARIANCE, .VIEW, .VISIBLE, .WARNINGS, .WEEK, .WEIGHT_STRING, .WHEN, .WHERE, .WINDOW, .WITH,
   .WORK, .WRITE, .XA, .XOR, .YEAR, .YEAR_MONTH, .ZEROFILL]

/-- The primary spelling. -/
def spelling : Keyword → String
  | .ACTION => "ACTION"
  | .ADD => "ADD"
  | .ADDDATE => "ADDDATE"
  | .AFTER => "AFTER"
  | .AGAINST => "AGAINST"
  | .ALGORITHM => "ALGORITHM"
  | .ALL => "ALL"
  | .ALTER => "ALTER"
  | .ANALYZE => "ANALYZE"
  | .AND => "AND"
  | .ANY => "ANY"
  | .AS => "AS"
  | .ASC => "ASC"
  | .ASCII => "ASCII"
  | .AUTO_INCREMENT => "AUTO_INCREMENT"
  | .AVG => "AVG"
  | .BEFORE => "BEFORE"
  | .BEGIN => "BEGIN"
  | .BETWEEN => "BETWEEN"
  | .BIGINT => "BIGINT"
  | .BINARY => "BINARY"
  | .BINLOG => "BINLOG"
  | .BIT => "BIT"
  | .BIT_AND => "BIT_AND"
  | .BIT_OR => "BIT_OR"
  | .BIT_XOR => "BIT_XOR"
  | .BLOB => "BLOB"
  | .BOOL => "BOOL"
  | .BOOLEAN => "BOOLEAN"
  | .BTREE => "BTREE"
  | .BY => "BY"
  | .CACHE => "CACHE"
  | .CALL => "CALL"
  | .CASCADE => "CASCADE"
  | .CASCADED => "CASCADED"
  | .CASE => "CASE"
  | .CAST => "CAST"
  | .CHAIN => "CHAIN"
  | .CHANGE => "CHANGE"
  | .CHANGED => "CHANGED"
  | .CHAR => "CHAR"
  | .CHARSET => "CHARSET"
  | .CHECK => "CHECK"
  | .CHECKSUM => "CHECKSUM"
  | .CLIENT => "CLIENT"
  | .CLOSE => "CLOSE"
  | .COALESCE => "COALESCE"
  | .COLLATE => "COLLATE"
  | .COLLATION => "COLLATION"
  | .COLUMN => "COLUMN"
  | .COLUMN_FORMAT => "COLUMN_FORMAT"
  | .COLUMNS => "COLUMNS"
  | .COMMIT => "COMMIT"
  | .COMPACT => "COMPACT"
  | .COMPONENT => "COMPONENT"
  | .COMPRESSED => "COMPRESSED"
  | .CONCURRENT => "CONCURRENT"
  | .CONNECTION => "CONNECTION"
  | .CONSISTENT => "CONSISTENT"
  | .CONSTRAINT => "CONSTRAINT"
  | .CONVERT => "CONVERT"
  | .COUNT => "COUNT"
  | .CREATE => "CREATE"
  | .CROSS => "CROSS"
  | .CUME_DIST => "CUME_DIST"
  | .CURDATE => "CURDATE"
  | .CURRENT => "CURRENT"
  | .CURRENT_DATE => "CURRENT_DATE"
  | .CURRENT_TIME => "CURRENT_TIME"
  | .CURRENT_TIMESTAMP => "CURRENT_TIMESTAMP"
  | .CURRENT_USER => "CURRENT_USER"
  | .CURTIME => "CURTIME"
  | .DATA => "DATA"
  | .DATABASE => "DATABASE"
  | .DATABASES => "DATABASES"
  | .DATE => "DATE"
  | .DATE_ADD => "DATE_ADD"
  | .DATE_SUB => "DATE_SUB"
  | .DATETIME => "DATETIME"
  | .DAY => "DAY"
  | .DAY_HOUR => "DAY_HOUR"
  | .DAY_MICROSECOND => "DAY_MICROSECOND"
  | .DAY_MINUTE => "DAY_MINUTE"
  | .DAY_SECOND => "DAY_SECOND"
  | .DEALLOCATE => "DEALLOCATE"
  | .DECIMAL => "DECIMAL"
  | .DEFAULT => "DEFAULT"
  | .DELAYED => "DELAYED"
  | .DELETE => "DELETE"
  | .DENSE_RANK => "DENSE_RANK"
  | .DESC => "DESC"
  | .DESCRIBE => "DESCRIBE"
  | .DISABLE => "DISABLE"
  | .DISTINCT => "DISTINCT"
  | .DIV => "DIV"
  | .DO => "DO"
  | .DOUBLE => "DOUBLE"
  | .DROP => "DROP"
  | .DUAL => "DUAL"
  | .DUMPFILE => "DUMPFILE"
  | .DUPLICATE => "DUPLICATE"
  | .DYNAMIC => "DYNAMIC"
  | .ELSE => "ELSE"
  | .ENABLE => "ENABLE"
  | .ENCLOSED => "ENCLOSED"
  | .END => "END"
  | .ENFORCED => "ENFORCED"
  | .ENGINE => "ENGINE"
  | .ENGINES => "ENGINES"
  | .ENUM => "ENUM"
  | .ERROR => "ERROR"
  | .ERRORS => "ERRORS"
  | .ESCAPE => "ESCAPE"
  | .ESCAPED => "ESCAPED"
  | .EVENT => "EVENT"
  | .EVENTS => "EVENTS"
  | .EXCEPT => "EXCEPT"
  | .EXECUTE => "EXECUTE"
  | .EXISTS => "EXISTS"
  | .EXPANSION => "EXPANSION"
  | .EXPLAIN => "EXPLAIN"
  | .EXTENDED => "EXTENDED"
  | .EXTRACT => "EXTRACT"
  | .FALSE => "FALSE"
  | .FAST => "FAST"
  | .FILE => "FILE"
  | .FILTER => "FILTER"
  | .FIRST => "FIRST"
  | .FIRST_VALUE => "FIRST_VALUE"
  | .FIXED => "FIXED"
  | .FLOAT => "FLOAT"
  | .FLUSH => "FLUSH"
  | .FOLLOWING => "FOLLOWING"
  | .FOR => "FOR"
  | .FORCE => "FORCE"
  | .FOREIGN => "FOREIGN"
  | .FORMAT => "FORMAT"
  | .FROM => "FROM"
  | .FULL => "FULL"
  | .FULLTEXT => "FULLTEXT"
  | .GENERAL => "GENERAL"
  | .GEOMETRY => "GEOMETRY"
  | .GLOBAL => "GLOBAL"
  | .GRANT => "GRANT"
  | .GRANTS => "GRANTS"
  | .GROUP => "GROUP"
  | .GROUP_CONCAT => "GROUP_CONCAT"
  | .HANDLER => "HANDLER"
  | .HASH => "HASH"
  | .HAVING => "HAVING"
  | .HELP => "HELP"
  | .HIGH_PRIORITY => "HIGH_PRIORITY"
  | .HOSTS => "HOSTS"
  | .HOUR => "HOUR"
  | .HOUR_MICROSECOND => "HOUR_MICROSECOND"
  | .HOUR_MINUTE => "HOUR_MINUTE"
  | .HOUR_SECOND => "HOUR_SECOND"
  | .IF => "IF"
  | .IGNORE => "IGNORE"
  | .IN => "IN"
  | .INDEX => "INDEX"
  | .INDEXES => "INDEXES"
  | .INFILE => "INFILE"
  | .INNER => "INNER"
  | .INSERT => "INSERT"
  | .INSTALL => "INSTALL"
  | .INT => "INT"
  | .INTERSECT => "INTERSECT"
  | .INTERVAL => "INTERVAL"
  | .INTO => "INTO"
  | .INVISIBLE => "INVISIBLE"
  | .IS => "IS"
  | .JOIN => "JOIN"
  | .JSON => "JSON"
  | .KEY => "KEY"
  | .KEYS => "KEYS"
  | .KILL => "KILL"
  | .LAG => "LAG"
  | .LANGUAGE => "LANGUAGE"
  | .LAST => "LAST"
  | .LAST_VALUE => "LAST_VALUE"
  | .LATERAL => "LATERAL"
  | .LEAD => "LEAD"
  | .LEFT => "LEFT"
  | .LIKE => "LIKE"
  | .LIMIT => "LIMIT"
  | .LINES => "LINES"
  | .LINESTRING => "LINESTRING"
  | .LOAD => "LOAD"
  | .LOCAL => "LOCAL"
  | .LOCK => "LOCK"
  | .LOCKED => "LOCKED"
  | .LOGS => "LOGS"
  | .LONGBLOB => "LONGBLOB"
  | .LONGTEXT => "LONGTEXT"
  | .LOW_PRIORITY => "LOW_PRIORITY"
  | .MASTER => "MASTER"
  | .MASTER_HOST => "MASTER_HOST"
  | .MASTER_LOG_FILE => "MASTER_LOG_FILE"
  | .MASTER_LOG_POS => "MASTER_LOG_POS"
  | .MASTER_PASSWORD => "MASTER_PASSWORD"
  | .MASTER_PORT => "MASTER_PORT"
  | .MASTER_USER => "MASTER_USER"
  | .MATCH => "MATCH"
  | .MAX => "MAX"
  | .MEDIUM => "MEDIUM"
  | .MEDIUMBLOB => "MEDIUMBLOB"
  | .MEDIUMINT => "MEDIUMINT"
  | .MEDIUMTEXT => "MEDIUMTEXT"
  | .MEMBER => "MEMBER"
  | .MERGE => "MERGE"
  | .MICROSECOND => "MICROSECOND"
  | .MIGRATE => "MIGRATE"
  | .MIN => "MIN"
  | .MINUTE => "MINUTE"
  | .MINUTE_MICROSECOND => "MINUTE_MICROSECOND"
  | .MINUTE_SECOND => "MINUTE_SECOND"
  | .MOD => "MOD"
  | .MODE => "MODE"
  | .MODIFY => "MODIFY"
  | .MONTH => "MONTH"
  | .NAMES => "NAMES"
  | .NATURAL => "NATURAL"
  | .NCHAR => "NCHAR"
  | .NEXT => "NEXT"
  | .NO => "NO"
  | .NO_WRITE_TO_BINLOG => "NO_WRITE_TO_BINLOG"
  | .NOT => "NOT"
  | .NOW => "NOW"
  | .NOWAIT => "NOWAIT"
  | .NTH_VALUE => "NTH_VALUE"
  | .NTILE => "NTILE"
  | .NULL => "NULL"
  | .NUMERIC => "NUMERIC"
  | .NVARCHAR => "NVARCHAR"
  | .OF => "OF"
  | .OFFLINE => "OFFLINE"
  | .OFFSET => "OFFSET"
  | .ON => "ON"
  | .ONE => "ONE"
  | .ONLINE => "ONLINE"
  | .ONLY => "ONLY"
  | .OPEN => "OPEN"
  | .OPTIMIZE => "OPTIMIZE"
  | .OPTIMIZER_COSTS => "OPTIMIZER_COSTS"
  | .OPTION => "OPTION"
  | .OPTIONALLY => "OPTIONALLY"
  | .OR => "OR"
  | .ORDER => "ORDER"
  | .OUTER => "OUTER"
  | .OUTFILE => "OUTFILE"
  | .OVER => "OVER"
  | .PARTITION => "PARTITION"
  | .PARTITIONS => "PARTITIONS"
  | .PASSWORD => "PASSWORD"
  | .PERCENT_RANK => "PERCENT_RANK"
  | .PERSIST => "PERSIST"
  | .PERSIST_ONLY => "PERSIST_ONLY"
  | .PHASE => "PHASE"
  | .PLUGIN => "PLUGIN"
  | .PLUGINS => "PLUGINS"
  | .POINT => "POINT"
  | .POLYGON => "POLYGON"
  | .PRECEDING => "PRECEDING"
  | .PRECISION => "PRECISION"
  | .PREPARE => "PREPARE"
  | .PREV => "PREV"
  | .PRIMARY => "PRIMARY"
  | .PRIVILEGES => "PRIVILEGES"
  | .PROCESS => "PROCESS"
  | .PROCESSLIST => "PROCESSLIST"
  | .PURGE => "PURGE"
  | .QUARTER => "QUARTER"
  | .QUERY => "QUERY"
  | .QUICK => "QUICK"
  | .RANGE => "RANGE"
  | .RANK => "RANK"
  | .READ => "READ"
  | .REAL => "REAL"
  | .RECOVER => "RECOVER"
  | .RECURSIVE => "RECURSIVE"
  | .REDUNDANT => "REDUNDANT"
  | .REFERENCES => "REFERENCES"
  | .REGEXP => "REGEXP"
  | .RELAY => "RELAY"
  | .RELEASE => "RELEASE"
  | .RELOAD => "RELOAD"
  | .RENAME => "RENAME"
  | .REPAIR => "REPAIR"
  | .REPEAT => "REPEAT"
  | .REPLACE => "REPLACE"
  | .REPLICATE_DO_DB => "REPLICATE_DO_DB"
  | .REPLICATE_DO_TABLE => "REPLICATE_DO_TABLE"
  | .REPLICATE_IGNORE_DB => "REPLICATE_IGNORE_DB"
  | .REPLICATE_IGNORE_TABLE => "REPLICATE_IGNORE_TABLE"
  | .REPLICATE_WILD_DO_TABLE => "REPLICATE_WILD_DO_TABLE"
  | .REPLICATE_WILD_IGNORE_TABLE => "REPLICATE_WILD_IGNORE_TABLE"
  | .REPLICATION => "REPLICATION"
  | .RESET => "RESET"
  | .RESTRICT => "RESTRICT"
  | .RESUME => "RESUME"
  | .REVOKE => "REVOKE"
  | .RIGHT => "RIGHT"
  | .ROLLBACK => "ROLLBACK"
  | .ROLLUP => "ROLLUP"
  | .ROUTINE => "ROUTINE"
  | .ROW => "ROW"
  | .ROW_FORMAT => "ROW_FORMAT"
  | .ROW_NUMBER => "ROW_NUMBER"
  | .ROWS => "ROWS"
  | .SAVEPOINT => "SAVEPOINT"
  | .SECOND => "SECOND"
  | .SECOND_MICROSECOND => "SECOND_MICROSECOND"
  | .SELECT => "SELECT"
  | .SEPARATOR => "SEPARATOR"
  | .SERIAL => "SERIAL"
  | .SESSION => "SESSION"
  | .SET => "SET"
  | .SHARE => "SHARE"
  | .SHOW => "SHOW"
  | .SHUTDOWN => "SHUTDOWN"
  | .SIGNED => "SIGNED"
  | .SKIP => "SKIP"
  | .SLAVE => "SLAVE"
  | .SLOW => "SLOW"
  | .SMALLINT => "SMALLINT"
  | .SNAPSHOT => "SNAPSHOT"
  | .SONAME => "SONAME"
  | .SOUNDS => "SOUNDS"
  | .SPATIAL => "SPATIAL"
  | .SQL_BIG_RESULT => "SQL_BIG_RESULT"
  | .SQL_BUFFER_RESULT => "SQL_BUFFER_RESULT"
  | .SQL_CALC_FOUND_ROWS => "SQL_CALC_FOUND_ROWS"
  | .SQL_NO_CACHE => "SQL_NO_CACHE"
  | .SQL_SMALL_RESULT => "SQL_SMALL_RESULT"
  | .START => "START"
  | .STARTING => "STARTING"
  | .STATUS => "STATUS"
  | .STD => "STD"
  | .STDDEV_SAMP => "STDDEV_SAMP"
  | .STOP => "STOP"
  | .STORAGE => "STORAGE"
  | .STRAIGHT_JOIN => "STRAIGHT_JOIN"
  | .SUBDATE => "SUBDATE"
  | .SUBSTRING => "SUBSTRING"
  | .SUM => "SUM"
  | .SUSPEND => "SUSPEND"
  | .SYSDATE => "SYSDATE"
  | .SYSTEM => "SYSTEM"
  | .TABLE => "TABLE"
  | .TABLES => "TABLES"
  | .TEMPORARY => "TEMPORARY"
  | .TEMPTABLE => "TEMPTABLE"
  | .TERMINATED => "TERMINATED"
  | .TEXT => "TEXT"
  | .THEN => "THEN"
  | .TIME => "TIME"
  | .TIMESTAMP => "TIMESTAMP"
  | .TINYBLOB => "TINYBLOB"
  | .TINYINT => "TINYINT"
  | .TINYTEXT => "TINYTEXT"
  | .TO => "TO"
  | .TRANSACTION => "TRANSACTION"
  | .TRIGGER => "TRIGGER"
  | .TRIGGERS => "TRIGGERS"
  | .TRIM => "TRIM"
  | .TRUE => "TRUE"
  | .TRUNCATE => "TRUNCATE"
  | .UNBOUNDED => "UNBOUNDED"
  | .UNDEFINED => "UNDEFINED"
  | .UNICODE => "UNICODE"
  | .UNINSTALL => "UNINSTALL"
  | .UNION => "UNION"
  | .UNIQUE => "UNIQUE"
  | .UNKNOWN => "UNKNOWN"
  | .UNLOCK => "UNLOCK"
  | .UNSIGNED => "UNSIGNED"
  | .UPDATE => "UPDATE"
  | .UPGRADE => "UPGRADE"
  | .USAGE => "USAGE"
  | .USE => "USE"
  | .USE_FRM => "USE_FRM"
  | .USER => "USER"
  | .USER_RESOURCES => "USER_RESOURCES"
  | .USING => "USING"
  | .UTC_DATE => "UTC_DATE"
  | .UTC_TIME => "UTC_TIME"
  | .UTC_TIMESTAMP => "UTC_TIMESTAMP"
  | .VALUE => "VALUE"
  | .VALUES => "VALUES"
  | .VAR_SAMP => "VAR_SAMP"
  | .VARBINARY => "VARBINARY"
  | .VARCHAR => "VARCHAR"
  | .VARIABLES => "VARIABLES"
  | .VARIANCE => "VARIANCE"
  | .VIEW => "VIEW"
  | .VISIBLE => "VISIBLE"
  | .WARNINGS => "WARNINGS"
  | .WEEK => "WEEK"
  | .WEIGHT_STRING => "WEIGHT_STRING"
  | .WHEN => "WHEN"
  | .WHERE => "WHERE"
  | .WINDOW => "WINDOW"
  | .WITH => "WITH"
  | .WORK => "WORK"
  | .WRITE => "WRITE"
  | .XA => "XA"
  | .XOR => "XOR"
  | .YEAR => "YEAR"
  | .YEAR_MONTH => "YEAR_MONTH"
  | .ZEROFILL => "ZEROFILL"

/-- Reserved keywords are never read as unquoted names. -/
def isReserved : Keyword → Bool
  | .ADD | .ALL | .ALTER | .ANALYZE | .AND | .AS | .ASC | .BEFORE | .BETWEEN | .BIGINT | .BINARY
  | .BLOB | .BY | .CALL | .CASCADE | .CASE | .CHANGE | .CHAR | .CHECK | .COLLATE | .COLUMN
  | .CONSTRAINT | .CONVERT | .CREATE | .CROSS | .CUME_DIST | .CURRENT_DATE | .CURRENT_TIME
  | .CURRENT_TIMESTAMP | .CURRENT_USER | .DATABASE | .DATABASES | .DAY_HOUR | .DAY_MICROSECOND
  | .DAY_MINUTE | .DAY_SECOND | .DECIMAL | .DEFAULT | .DELAYED | .DELETE | .DENSE_RANK | .DESC
  | .DESCRIBE | .DISTINCT | .DIV | .DOUBLE | .DROP | .DUAL | .ELSE | .ENCLOSED | .ESCAPED
  | .EXCEPT | .EXISTS | .EXPLAIN | .FALSE | .FIRST_VALUE | .FLOAT | .FOR | .FORCE | .FOREIGN
  | .FROM | .FULLTEXT | .GRANT | .GROUP | .HAVING | .HIGH_PRIORITY | .HOUR_MICROSECOND
  | .HOUR_MINUTE | .HOUR_SECOND | .IF | .IGNORE | .IN | .INDEX | .INFILE | .INNER | .INSERT | .INT
  | .INTERSECT | .INTERVAL | .INTO | .IS | .JOIN | .KEY | .KEYS | .KILL | .LAG | .LAST_VALUE
  | .LATERAL | .LEAD | .LEFT | .LIKE | .LIMIT | .LINES | .LOAD | .LOCK | .LONGBLOB | .LONGTEXT
  | .LOW_PRIORITY | .MATCH | .MEDIUMBLOB | .MEDIUMINT | .MEDIUMTEXT | .MINUTE_MICROSECOND
  | .MINUTE_SECOND | .MOD | .NATURAL | .NO_WRITE_TO_BINLOG | .NOT | .NTH_VALUE | .NTILE | .NULL
  | .NUMERIC | .OF | .ON | .OPTIMIZE | .OPTION | .OPTIONALLY | .OR | .ORDER | .OUTER | .OUTFILE
  | .OVER | .PARTITION | .PERCENT_RANK | .PRECISION | .PRIMARY | .PURGE | .RANGE | .RANK | .READ
  | .REAL | .RECURSIVE | .REFERENCES | .REGEXP | .RELEASE | .RENAME | .REPEAT | .REPLACE
  | .RESTRICT | .REVOKE | .RIGHT | .ROW | .ROW_NUMBER | .ROWS | .SECOND_MICROSECOND | .SELECT
  | .SET | .SHOW | .SMALLINT | .SPATIAL | .SQL_BIG_RESULT | .SQL_CALC_FOUND_ROWS
  | .SQL_SMALL_RESULT | .STARTING | .STRAIGHT_JOIN | .TABLE | .TERMINATED | .THEN | .TINYBLOB
  | .TINYINT | .TINYTEXT | .TO | .TRUE | .UNION | .UNIQUE | .UNLOCK | .UNSIGNED | .UPDATE | .USAGE
  | .USE | .USING | .UTC_DATE | .UTC_TIME | .UTC_TIMESTAMP | .VALUES | .VARBINARY | .VARCHAR
  | .WHEN | .WHERE | .WINDOW | .WITH | .WRITE | .XOR | .YEAR_MONTH | .ZEROFILL => true
  | _ => false

/-- Further spellings of the same word; most keywords have none. -/
def synonyms : Keyword → List String
  | .CHAR => ["CHARACTER"]
  | .DECIMAL => ["DEC"]
  | .DISTINCT => ["DISTINCTROW"]
  | .COLUMNS => ["FIELDS"]
  | .INT => ["INTEGER", "INT4"]
  | .REGEXP => ["RLIKE"]
  | .DATABASE => ["SCHEMA"]
  | .DATABASES => ["SCHEMAS"]
  | .BIGINT => ["INT8"]
  | .TINYINT => ["INT1"]
  | .SMALLINT => ["INT2"]
  | .MEDIUMINT => ["INT3", "MIDDLEINT"]
  | .VARCHAR => ["VARCHARACTER"]
  | .DOUBLE => ["FLOAT8"]
  | .FLOAT => ["FLOAT4"]
  | .SUBSTRING => ["SUBSTR"]
  | .STD => ["STDDEV", "STDDEV_POP"]
  | .VARIANCE => ["VAR_POP"]
  | _ => []

/-- The keyword with this primary spelling, or else the one that has it among its synonyms. -/
def ofSpelling? (spelling : String) : Option Keyword :=
  (all.find? fun k => k.spelling == spelling) <|>
    all.find? fun k => k.synonyms.contains spelling

/-- The keyword that a word means. Only the letters A to Z are matched without regard to case. -/
def ofWord? (word : String) : Option Keyword :=
  ofSpelling? (word.map Char.toUpper)

end Keyword

end SqlCompletion
