set_option autoImplicit false

/-!
# Symbols

The terminals that are not keywords: operators and punctuation, the classes of literals and
names, the marks for white space, comments, unreadable text and the end of the text, and two
readings that only some SQL modes bring about (`NOT2` for `NOT`, `CONCAT_PIPES` for `||`).
-/

namespace SqlCompletion

/-- A terminal that is not a keyword. -/
inductive Symbol where
  | eof | invalid | whitespace | comment | equal | assign | nullSafeEqual | greaterOrEqual
  | greater | lessOrEqual | less | notEqual | plus | minus | mult | divide | modulo | logicalNot
  | bitwiseNot | shiftLeft | shiftRight | logicalAnd | bitwiseAnd | bitwiseXor | logicalOr
  | bitwiseOr | concatPipes | dot | comma | semicolon | colon | openPar | closePar | openCurly
  | closeCurly | atSign | atAt | paramMarker | jsonSeparator | jsonUnquotedSeparator | identifier
  | backTickQuotedId | singleQuotedText | doubleQuotedText | ncharText | intNumber | decimalNumber
  | floatNumber | hexNumber | binNumber | not2
  deriving DecidableEq, Repr, Inhabited

namespace Symbol

/-- Every symbol. -/
def all : List Symbol :=
  [.eof, .invalid, .whitespace, .comment, .equal, .assign, .nullSafeEqual, .greaterOrEqual,
   .greater, .lessOrEqual, .less, .notEqual, .plus, .minus, .mult, .divide, .modulo, .logicalNot,
   .bitwiseNot, .shiftLeft, .shiftRight, .logicalAnd, .bitwiseAnd, .bitwiseXor, .logicalOr,
   .bitwiseOr, .concatPipes, .dot, .comma, .semicolon, .colon, .openPar, .closePar, .openCurly,
   .closeCurly, .atSign, .atAt, .paramMarker, .jsonSeparator, .jsonUnquotedSeparator, .identifier,
   .backTickQuotedId, .singleQuotedText, .doubleQuotedText, .ncharText, .intNumber,
   .decimalNumber, .floatNumber, .hexNumber, .binNumber, .not2]

/-- Operators and punctuation: the symbols that are written as themselves. -/
def isOperator : Symbol → Bool
  | .equal | .assign | .nullSafeEqual | .greaterOrEqual | .greater | .lessOrEqual | .less
  | .notEqual | .plus | .minus | .mult | .divide | .modulo | .logicalNot | .bitwiseNot
  | .shiftLeft | .shiftRight | .logicalAnd | .bitwiseAnd | .bitwiseXor | .logicalOr | .bitwiseOr
  | .dot | .comma | .semicolon | .colon | .openPar | .closePar | .openCurly | .closeCurly
  | .atSign | .atAt | .paramMarker | .jsonSeparator | .jsonUnquotedSeparator => true
  | _ => false

/-- Readings of a word or an operator that depend on the SQL mode. -/
def isModeReading : Symbol → Bool
  | .concatPipes | .not2 => true
  | _ => false

/-- What the symbol is called: the operator itself, or the name of the class. -/
def text : Symbol → String
  | .eof => "EOF"
  | .invalid => "INVALID_INPUT"
  | .whitespace => "WHITESPACE"
  | .comment => "COMMENT"
  | .equal => "="
  | .assign => ":="
  | .nullSafeEqual => "<=>"
  | .greaterOrEqual => ">="
  | .greater => ">"
  | .lessOrEqual => "<="
  | .less => "<"
  | .notEqual => "!="
  | .plus => "+"
  | .minus => "-"
  | .mult => "*"
  | .divide => "/"
  | .modulo => "%"
  | .logicalNot => "!"
  | .bitwiseNot => "~"
  | .shiftLeft => "<<"
  | .shiftRight => ">>"
  | .logicalAnd => "&&"
  | .bitwiseAnd => "&"
  | .bitwiseXor => "^"
  | .logicalOr => "||"
  | .bitwiseOr => "|"
  | .concatPipes => "CONCAT_PIPES"
  | .dot => "."
  | .comma => ","
  | .semicolon => ";"
  | .colon => ":"
  | .openPar => "("
  | .closePar => ")"
  | .openCurly => "\x7b"
  | .closeCurly => "\x7d"
  | .atSign => "@"
  | .atAt => "@@"
  | .paramMarker => "?"
  | .jsonSeparator => "->"
  | .jsonUnquotedSeparator => "->>"
  | .identifier => "IDENTIFIER"
  | .backTickQuotedId => "BACK_TICK_QUOTED_ID"
  | .singleQuotedText => "SINGLE_QUOTED_TEXT"
  | .doubleQuotedText => "DOUBLE_QUOTED_TEXT"
  | .ncharText => "NCHAR_TEXT"
  | .intNumber => "INT_NUMBER"
  | .decimalNumber => "DECIMAL_NUMBER"
  | .floatNumber => "FLOAT_NUMBER"
  | .hexNumber => "HEX_NUMBER"
  | .binNumber => "BIN_NUMBER"
  | .not2 => "NOT2"

/-- The name under which the grammar shows the symbol: operators in quotes, readings that a
SQL mode brings about like keywords, every other class by its plain name. -/
def displayName (s : Symbol) : String :=
  if s.isOperator then "'" ++ s.text ++ "'"
  else if s.isModeReading then s.text ++ "_SYMBOL"
  else s.text

end Symbol

end SqlCompletion
