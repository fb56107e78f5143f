import SqlCompletion.Engine.Parser
import SqlCompletion.Token.Clause
set_option autoImplicit false

/-!
# Tables in scope

The tables that a statement names around the caret: those of the `FROM` clauses in front of it,
those of the next `FROM` clause behind it, or the table that an `ALTER TABLE` changes.
-/

namespace SqlCompletion.Scope

/-! ## `FROM` clauses -/

/-- The tokens `FROM` in front of the caret, up to a closing parenthesis that leaves the scope;
`level` parentheses are open. -/
def fromsBefore (caretIndex level : Nat) : List Token → List Token
  | [] => []
  | t :: rest =>
    if caretIndex ≤ t.index then []
    else if t.kind = .symbol .openPar then fromsBefore caretIndex (level + 1) rest
    else if t.kind = .symbol .closePar then
      match level with
      | 0 => []
      | outer + 1 => fromsBefore caretIndex outer rest
    else if t.kind = .keyword .FROM then t :: fromsBefore caretIndex level rest
    else fromsBefore caretIndex level rest

/-- The tokens `FROM` that start the clauses in front of the caret. A `FROM` that the text starts
with is always one of them. -/
def leading (s : TokenStream) (caretIndex : Nat) : List Token :=
  let atStart := (s.get? 0).filter fun t => t.kind == .keyword .FROM
  atStart.toList ++ fromsBefore caretIndex 0 (s.visibleAfter 0)

/-- The first token `FROM` outside of the parentheses, `level` of which are open. A closing
parenthesis too many is passed over. -/
def firstFrom? (level : Nat) : List Token → Option Token
  | [] => none
  | t :: rest =>
    if t.kind = .symbol .openPar then firstFrom? (level + 1) rest
    else if t.kind = .symbol .closePar then firstFrom? (level - 1) rest
    else if t.kind = .keyword .FROM ∧ level = 0 then some t
    else firstFrom? level rest

/-- The token `FROM` that starts the clause at the index or behind it. -/
def trailing? (s : TokenStream) (index : Nat) : Option Token :=
  ((s.get? index).filter fun t => t.kind == .keyword .FROM) <|>
    firstFrom? 0 (s.visibleAfter index)

/-- The tables of the clause that a token `FROM` starts, in the places of the stream's text. -/
def clauseTables (parser : Parser) (s : TokenStream) (start : Token) : List TableReference :=
  (parser (s.clauseText start.index) .fromClause).references.map (·.shift start.span.start)

/-! ## `ALTER TABLE` -/

/-- The table behind `ALTER TABLE`, given the visible tokens behind `ALTER`; with a schema in
front of it, the schema is a reference of its own as well. -/
def tableBehindAlter (tokens : List Token) : List TableReference :=
  match tokens with
  | word :: first :: rest =>
    if word.kind = .keyword .TABLE ∧ first.kind.isNameLike = true then
      let name := FromClause.nameOf first
      match rest with
      | point :: table :: _ =>
        if point.kind = .symbol .dot ∧ table.kind.isNameLike = true then
          [.ofTable (FromClause.nameOf table) (some name), .ofSchema name]
        else [.ofTable name none]
      | _ => [.ofTable name none]
    else []
  | _ => []

/-- The table that is altered, seen from an index inside the statement: the nearest `ALTER` at or
in front of it counts. -/
def altered (s : TokenStream) (index : Nat) : List TableReference :=
  match (s.visibleBefore (index + 1)).find? fun t => t.kind == .keyword .ALTER with
  | none => []
  | some alter => tableBehindAlter (s.visibleAfter alter.index)

end SqlCompletion.Scope
