import SqlCompletion.Lexeme.Reading
import SqlCompletion.Token.Basic
set_option autoImplicit false

/-!
# Token streams

The tokens of a text, in order and without gaps, ended by one token `EOF`. Every text has a
stream: what cannot be read is one token `INVALID_INPUT` in front of the end.
-/

namespace SqlCompletion

/-- The tokens of a text. -/
structure TokenStream where
  source : String
  tokens : List Token
  deriving DecidableEq, Repr, Inhabited

namespace TokenStream

/-! ## Reading a text -/

/-- Appends a token for the characters of a text that lie in the span. -/
def lay (chars : Array Char) (tokens : Array Token) (kind : Terminal) (span : Span) :
    Array Token :=
  tokens.push
    ⟨kind, String.ofList (chars.extract span.start span.stop).toList, span, tokens.size⟩

/-- The tokens of the lexemes of a text, the unread rest of the text as one token, and the end.
The text was read up to `limit`. -/
def layAll (d : Dialect) (text : List Char) (lexemes : List Lexeme) (limit : Nat) :
    Array Token :=
  let chars := text.toArray
  let lines := Text.LineIndex.ofText (text.take limit)
  let readTokens := lexemes.foldl
    (fun tokens l => lay chars tokens (l.terminal d) (l.span lines limit)) #[]
  let tokens :=
    if limit < chars.size then lay chars readTokens .invalid ⟨limit, chars.size⟩
    else readTokens
  lay chars tokens .eof ⟨chars.size, chars.size⟩

/-- The token stream of a text in the dialect. -/
def ofText (d : Dialect) (source : String) : TokenStream :=
  let text := source.toList
  let (lexemes, limit) := Lexeme.readable text
  ⟨source, (layAll d text lexemes limit).toList⟩

/-! ## Views -/

/-- The number of tokens, hidden ones and the end included. -/
def size (s : TokenStream) : Nat := s.tokens.length

/-- The token at an index. -/
def get? (s : TokenStream) (index : Nat) : Option Token := s.tokens[index]?

/-- The index of the last token. -/
def lastIndex (s : TokenStream) : Nat := s.size - 1

/-- The number of characters of the text. -/
def charLength (s : TokenStream) : Nat := s.source.length

/-- The tokens that the grammar sees, in order. -/
def visible (s : TokenStream) : List Token := s.tokens.filter fun t => !t.isHidden

/-- The visible tokens with an index above `index`. -/
def visibleAfter (s : TokenStream) (index : Nat) : List Token :=
  (s.tokens.drop (index + 1)).filter fun t => !t.isHidden

/-- The visible tokens with an index below `index`, the nearest one first. -/
def visibleBefore (s : TokenStream) (index : Nat) : List Token :=
  ((s.tokens.take index).filter fun t => !t.isHidden).reverse

/-- The nearest visible token with an index above `index`. -/
def firstAfter? (s : TokenStream) (index : Nat) : Option Token :=
  (s.tokens.drop (index + 1)).find? fun t => !t.isHidden

/-- The nearest visible token with an index below `index`. -/
def lastBefore? (s : TokenStream) (index : Nat) : Option Token :=
  (s.tokens.take index).reverse.find? fun t => !t.isHidden

theorem head?_visibleAfter (s : TokenStream) (index : Nat) :
    (s.visibleAfter index).head? = s.firstAfter? index := List.head?_filter ..

theorem head?_visibleBefore (s : TokenStream) (index : Nat) :
    (s.visibleBefore index).head? = s.lastBefore? index := by
  rw [visibleBefore, ← List.filter_reverse, List.head?_filter, lastBefore?]

/-- The text from a character on. -/
def textFrom (s : TokenStream) (offset : Nat) : String :=
  String.ofList (s.source.toList.drop offset)

/-- The terminal of the nearest visible token in front of an index. -/
def lookBack (s : TokenStream) (index : Nat) : Terminal :=
  (s.lastBefore? index).elim .invalid Token.kind

/-- The index of the token that holds the character at `offset`. Where there is none, it is the
index in front of the first token that starts behind the offset, or the last index. -/
def indexAt (s : TokenStream) (offset : Nat) : Nat :=
  match s.tokens.find? fun t => t.span.contains offset with
  | some t => t.index
  | none =>
    match s.tokens.findIdx? fun t => decide (offset < t.span.start) with
    | some (next + 1) => next
    | _ => s.lastIndex

end TokenStream

end SqlCompletion
