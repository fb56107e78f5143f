import SqlCompletion.Text.Span
import SqlCompletion.Vocabulary.Terminal
set_option autoImplicit false

/-!
# Tokens

A token is a terminal together with the text it was read from and the place of that text.
-/

namespace SqlCompletion

/-- A terminal in its place. -/
structure Token where
  kind : Terminal
  /-- The text as it was written, quotes included. -/
  text : String
  span : Span
  /-- The place in the stream, hidden tokens counted. -/
  index : Nat
  deriving DecidableEq, Repr, Inhabited

namespace Token

/-- Where the token goes. -/
def channel (t : Token) : Channel := t.kind.channel

/-- White space or a comment. -/
def isHidden (t : Token) : Bool := t.channel == .hidden

end Token

/-- The terminal of the first token; behind the last token the text has ended. -/
def headKind : List Token → Terminal
  | [] => .eof
  | t :: _ => t.kind

end SqlCompletion
