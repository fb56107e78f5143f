import SqlCompletion.Token.Stream
set_option autoImplicit false

/-!
# Clauses

A clause reaches from a token up to the keyword that starts the next clause, to a closing
parenthesis that it did not open, or to the end of the text. Keywords inside parentheses end
nothing. An index hint keeps its `FOR`, and the `ORDER` or `GROUP` behind that.
-/

namespace SqlCompletion

/-- The terminal starts another clause, given the visible one in front of it. -/
def Terminal.endsClause (t previous : Terminal) : Bool :=
  match t with
  | .keyword .FOR => !(previous == .keyword .INDEX || previous == .keyword .KEY)
  | .keyword .GROUP | .keyword .ORDER => !(previous == .keyword .FOR)
  | .keyword .WHERE | .keyword .HAVING | .keyword .LIMIT | .keyword .WINDOW | .keyword .LOCK
  | .keyword .INTO | .keyword .UNION | .keyword .EXCEPT | .keyword .INTERSECT
  | .symbol .semicolon => true
  | _ => false

namespace TokenStream

/-- Counts the tokens of a clause, starting at `count`: `level` parentheses are open, and
`previous` is the visible terminal read last. The first token of a clause never ends it unless
it is a closing parenthesis. -/
def clauseLength (count level : Nat) (previous : Terminal) : List Token → Nat
  | [] => count
  | t :: rest =>
    if t.isHidden then clauseLength (count + 1) level previous rest
    else if t.kind = .symbol .openPar then clauseLength (count + 1) (level + 1) t.kind rest
    else if t.kind = .symbol .closePar then
      match level with
      | 0 => count
      | outer + 1 => clauseLength (count + 1) outer t.kind rest
    else if 0 < count ∧ level = 0 ∧ t.kind.endsClause previous = true then count
    else clauseLength (count + 1) level t.kind rest

/-- The tokens of the clause that starts at an index, hidden ones included. -/
def clauseTokens (s : TokenStream) (index : Nat) : List Token :=
  let rest := s.tokens.drop index
  rest.take (clauseLength 0 0 .invalid rest)

/-- The text of the clause that starts at an index. -/
def clauseText (s : TokenStream) (index : Nat) : String :=
  String.join ((s.clauseTokens index).map Token.text)

end TokenStream

end SqlCompletion
