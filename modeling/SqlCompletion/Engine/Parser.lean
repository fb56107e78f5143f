import SqlCompletion.Table.FromClause
import SqlCompletion.Token.Stream
set_option autoImplicit false

/-!
# Parsers

A parser turns a text into tokens and, for a `FROM` clause, into the tables of the clause.
-/

namespace SqlCompletion

/-- What a text is taken for. -/
inductive Entry where
  /-- Statements. -/
  | query
  /-- A `FROM` clause and what follows it. -/
  | fromClause
  deriving DecidableEq, Repr, Inhabited

/-- What a parser makes of a text. -/
structure Parse where
  stream : TokenStream
  /-- The tables of a `FROM` clause; none for statements. -/
  references : List TableReference
  deriving DecidableEq, Repr, Inhabited

/-- A parser. -/
abbrev Parser := String → Entry → Parse

/-- The parser for MySQL. -/
def Parser.mysql (d : Dialect) : Parser := fun text entry =>
  let stream := TokenStream.ofText d text
  match entry with
  | .query => ⟨stream, []⟩
  | .fromClause => ⟨stream, FromClause.tables stream.visible⟩

theorem Parser.references_fromClause (d : Dialect) (text : String) :
    (Parser.mysql d text .fromClause).references =
      FromClause.tables (TokenStream.ofText d text).visible := rfl

end SqlCompletion
