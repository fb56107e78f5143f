import SqlCompletion.Token.Clause
set_option autoImplicit false

/-!
# Scanners

A place in a token stream that can be moved. Steps pass over hidden tokens. A place is a plain
value: it can be kept and gone back to.
-/

namespace SqlCompletion

/-- A place in a token stream. -/
structure Scanner where
  stream : TokenStream
  index : Nat := 0
  deriving DecidableEq, Repr, Inhabited

namespace Scanner

/-- A scanner on the first token. -/
def start (stream : TokenStream) : Scanner := ⟨stream, 0⟩

/-- The current token. -/
def token? (s : Scanner) : Option Token := s.stream.get? s.index

/-- The terminal of the current token; behind the stream the text has ended. -/
def kind (s : Scanner) : Terminal := (s.token?).elim .eof Token.kind

/-- The text of the current token. -/
def text (s : Scanner) : String := (s.token?).elim "" Token.text

/-- The place of the current token in the text. -/
def span (s : Scanner) : Span :=
  (s.token?).elim ⟨s.stream.charLength, s.stream.charLength⟩ Token.span

/-- The current token is of that kind. -/
def isAt (s : Scanner) (kind : Terminal) : Bool := s.kind == kind

/-! ## Moves -/

/-- The scanner at an index that was kept. -/
def moveTo (s : Scanner) (index : Nat) : Scanner := { s with index := index }

/-- Moves to the next visible token. Where there is none, the answer is `false` and the scanner
stands on the last token. -/
def next (s : Scanner) : Bool × Scanner :=
  match s.stream.firstAfter? s.index with
  | some t => (true, s.moveTo t.index)
  | none => (false, s.moveTo (max s.index s.stream.lastIndex))

/-- Moves to the previous visible token. Where there is none, the answer is `false` and the
scanner stands on the first token. -/
def previous (s : Scanner) : Bool × Scanner :=
  match s.stream.lastBefore? s.index with
  | some t => (true, s.moveTo t.index)
  | none => (false, s.moveTo 0)

/-- Jumps to an index, at most to the last token. -/
def seek (s : Scanner) (index : Nat) : Scanner := s.moveTo (min index s.stream.lastIndex)

/-- Moves to the token that holds the character at an offset. -/
def advance (s : Scanner) (offset : Nat) : Scanner := s.moveTo (s.stream.indexAt offset)

/-- The terminal of the nearest visible token in front of the current one. -/
def lookBack (s : Scanner) : Terminal := s.stream.lookBack s.index

/-- Moves behind some terminals, if they are the current ones and a token follows them. -/
def skipAll (s : Scanner) : List Terminal → Option Scanner
  | [] => some s
  | kind :: kinds =>
    if s.isAt kind then
      match s.next with
      | (true, moved) => moved.skipAll kinds
      | (false, _) => none
    else none

/-- Moves behind some terminals, or does not move at all; the answer says which. -/
def skip (s : Scanner) (kinds : List Terminal) : Bool × Scanner :=
  match s.skipAll kinds with
  | some moved => (true, moved)
  | none => (false, s)

/-! ## Texts -/

/-- The text from the current token on. -/
def restText (s : Scanner) : String := s.stream.textFrom s.span.start

/-- The text of the clause that the current token starts. -/
def clauseText (s : Scanner) : String := s.stream.clauseText s.index

end Scanner

end SqlCompletion
