import SqlCompletion.Server.Dialect
import SqlCompletion.Text.Location
import SqlCompletion.Text.Span
import SqlCompletion.Vocabulary.Terminal
set_option autoImplicit false

/-!
# Forms of lexemes

A lexeme is a piece of the text together with its form: what it looks like before the dialect
decides which terminal it is. The dialect matters in three places only: a word `NOT`, the pipes
`||` and a text in double quotes.
-/

namespace SqlCompletion

/-- What a piece of text looks like. -/
inductive Form where
  | blank
  | comment
  /-- An unquoted word: a keyword or a name. -/
  | word
  /-- A name in back-ticks. -/
  | backTicked
  | singleQuoted
  | doubleQuoted
  /-- A string of the national character set, as in `N'text'`. -/
  | national
  | hexadecimal
  | binary
  | integer
  | decimal
  | float
  /-- A question mark with a number. -/
  | placeholder
  /-- The operator `||`. -/
  | pipes
  /-- An operator or a punctuation mark that the grammar knows. -/
  | operator (s : Symbol)
  /-- Text that no terminal but `INVALID_INPUT` stands for. -/
  | unknown
  deriving DecidableEq, Repr, Inhabited

namespace Form

/-- A word or a name in back-ticks: after it, a point is a separator and not a decimal point. -/
def isName : Form → Bool
  | word | backTicked => true
  | _ => false

/-- The terminal that an unquoted word is. -/
def wordTerminal (d : Dialect) (text : List Char) : Terminal :=
  match Keyword.ofWord? (String.ofList text) with
  | some .NOT => if d.has .highNotPrecedence then .symbol .not2 else .keyword .NOT
  | some k => .keyword k
  | none => .symbol .identifier

/-- The terminal that a lexeme of this form is in the dialect. -/
def terminal (d : Dialect) (text : List Char) : Form → Terminal
  | blank => .symbol .whitespace
  | comment => .symbol .comment
  | word => wordTerminal d text
  | backTicked => .symbol .backTickQuotedId
  | singleQuoted => .symbol .singleQuotedText
  | doubleQuoted =>
    if d.has .ansiQuotes then .symbol .identifier else .symbol .doubleQuotedText
  | national => .symbol .ncharText
  | hexadecimal => .symbol .hexNumber
  | binary => .symbol .binNumber
  | integer => .symbol .intNumber
  | decimal => .symbol .decimalNumber
  | float => .symbol .floatNumber
  | placeholder => .symbol .identifier
  | pipes => if d.has .pipesAsConcat then .symbol .concatPipes else .symbol .logicalOr
  | operator s => .symbol s
  | unknown => .symbol .invalid

end Form

/-- A piece of the text with its form and its place. -/
structure Lexeme where
  form : Form
  text : List Char
  start : Text.Location
  stop : Text.Location
  deriving DecidableEq, Repr, Inhabited

namespace Lexeme

/-- The terminal that the lexeme is in the dialect. -/
def terminal (d : Dialect) (l : Lexeme) : Terminal := l.form.terminal d l.text

/-- The characters that the lexeme takes of a text with these lines, of which `limit` characters
were read. -/
def span (lines : Text.LineIndex) (limit : Nat) (l : Lexeme) : Span :=
  let start := min (lines.offset l.start) limit
  ⟨start, max start (min (lines.offset l.stop) limit)⟩

end Lexeme

end SqlCompletion
