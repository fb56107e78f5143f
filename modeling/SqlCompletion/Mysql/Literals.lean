import SqlCompletion.Grammar.Element
set_option autoImplicit false

/-!
# Literals

Numbers, strings, dates and character sets.
-/

namespace SqlCompletion.Mysql

open Element

/-- A value that is written out. -/
def literal : Element :=
  choice [
    rule .textLiteral,
    rule .numLiteral,
    rule .temporalLiteral,
    kw .NULL,
    anyKw [.TRUE, .FALSE],
    anySym [.hexNumber, .binNumber]]

/-- A value that is written out, or a number with a sign. -/
def signedLiteral : Element :=
  choice [rule .literal, seq [anySym [.plus, .minus], rule .numLiteral]]

/-- Strings one after the other, which are one text. -/
def textLiteral : Element := plus (choice [rule .textStringLiteral, sym .ncharText])

/-- One string. -/
def textStringLiteral : Element := anySym [.singleQuotedText, .doubleQuotedText]

/-- A string, or its bytes as a number. -/
def textString : Element := choice [rule .textStringLiteral, sym .hexNumber, sym .binNumber]

/-- A number. -/
def numLiteral : Element := anySym [.intNumber, .decimalNumber, .floatNumber]

/-- A date or a time. -/
def temporalLiteral : Element := seq [anyKw [.DATE, .TIME, .TIMESTAMP], sym .singleQuotedText]

end SqlCompletion.Mysql
