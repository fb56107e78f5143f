import SqlCompletion.Token.Stream
set_option autoImplicit false

/-!
# Statements

A text is a row of statements with semicolons in between. A caret right behind a semicolon is in
the statement that follows.
-/

namespace SqlCompletion.Statement

/-- The spans between the semicolons among some tokens, the first one from `start` on and the
last one up to `stop`. -/
def spansFrom (start stop : Nat) : List Token → List Span
  | [] => [⟨start, stop⟩]
  | t :: rest =>
    if t.kind = .symbol .semicolon then
      ⟨start, t.span.start⟩ :: spansFrom t.span.stop stop rest
    else spansFrom start stop rest

/-- The spans of the statements of a text. -/
def spans (s : TokenStream) : List Span := spansFrom 0 s.charLength s.visible

/-- The span of the statement that the caret is in: the last one that does not start behind
it. -/
def spanAt (s : TokenStream) (offset : Nat) : Span :=
  ((spans s).reverse.find? fun span => decide (span.start ≤ offset)).getD ⟨0, 0⟩

end SqlCompletion.Statement
