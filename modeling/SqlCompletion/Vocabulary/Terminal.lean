import SqlCompletion.Vocabulary.Keyword
import SqlCompletion.Vocabulary.Symbol
set_option autoImplicit false

/-!
# Terminals

The alphabet of the grammar: keywords and symbols. A terminal is shown under a display name
(`SELECT_SYMBOL`, `'('`, `IDENTIFIER`) and, in a suggestion, under the words it stands for.
-/

namespace SqlCompletion

/-- A terminal of the grammar. -/
inductive Terminal where
  | keyword (k : Keyword)
  | symbol (s : Symbol)
  deriving DecidableEq, Repr

/-- Where a token goes: to the grammar, or past it (white space and comments). -/
inductive Channel where
  | visible
  | hidden
  deriving DecidableEq, Repr, Inhabited

namespace Terminal

instance : Inhabited Terminal := ⟨.symbol .invalid⟩

/-- The end of the text. -/
abbrev eof : Terminal := .symbol .eof

/-- Text that cannot be read. -/
abbrev invalid : Terminal := .symbol .invalid

/-- Every terminal. -/
def all : List Terminal := Symbol.all.map symbol ++ Keyword.all.map keyword

/-- The terminal is a keyword. -/
def isKeyword : Terminal → Bool
  | keyword _ => true
  | symbol _ => false

/-- The spelling of a keyword. -/
def keywordText? : Terminal → Option String
  | keyword k => some k.spelling
  | symbol _ => none

/-- A keyword that cannot be an unquoted name. -/
def isReserved : Terminal → Bool
  | keyword k => k.isReserved
  | symbol _ => false

/-- The terminal can stand where the grammar expects a name: an identifier, a name in back-ticks
or a keyword that is not reserved. -/
def isNameLike : Terminal → Bool
  | keyword k => !k.isReserved
  | symbol .identifier | symbol .backTickQuotedId => true
  | symbol _ => false

/-- Further spellings of a keyword. -/
def synonyms : Terminal → List String
  | keyword k => k.synonyms
  | symbol _ => []

/-- The name under which the grammar shows the terminal. -/
def displayName : Terminal → String
  | keyword k => k.spelling ++ "_SYMBOL"
  | symbol s => s.displayName

/-- The words that a suggestion shows for the terminal: its display name without the quotes or
the ending `_SYMBOL`. -/
def phrase : Terminal → String
  | keyword k => k.spelling
  | symbol s => s.text

/-- The terminal of that display name. -/
def ofDisplayName? (name : String) : Option Terminal :=
  all.find? fun t => t.displayName == name

/-- White space and comments are hidden from the grammar. -/
def channel : Terminal → Channel
  | symbol .whitespace | symbol .comment => .hidden
  | _ => .visible

/-- The terminal is never offered as a completion: everything but keywords and the reading
`NOT2` of `NOT`. -/
def isIgnored : Terminal → Bool
  | keyword _ | symbol .not2 => false
  | symbol _ => true

end Terminal

end SqlCompletion
