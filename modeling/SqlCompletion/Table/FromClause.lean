import SqlCompletion.Table.Name
import SqlCompletion.Table.Reference
import SqlCompletion.Token.Basic
set_option autoImplicit false

/-!
# Tables of a `FROM` clause

Reads the tables off the visible tokens of a clause: lists, joins, aliases, partitions and index
hints. Derived tables name no table and are passed over. Any tokens at all can be read; what does
not fit is passed over as well. A reader takes tokens and gives the tables that it found with the
tokens that are left.

Every repetition takes a token at least, so that the number of tokens of the clause, called
`bound` throughout, is fuel enough for all of them.
-/

namespace SqlCompletion.FromClause

/-- The tables found, and the tokens left. -/
structure Reading where
  tables : List TableReference
  rest : List Token
  deriving DecidableEq, Repr, Inhabited

/-- Takes tables off the front of a list of tokens. -/
abbrev Reader := List Token → Reading

/-- A word that belongs to a join. -/
def isJoinWord : Terminal → Bool
  | .keyword .JOIN | .keyword .INNER | .keyword .CROSS | .keyword .STRAIGHT_JOIN | .keyword .LEFT
  | .keyword .RIGHT | .keyword .NATURAL | .keyword .OUTER => true
  | _ => false

/-- A terminal that the list of tables does not go beyond. -/
def isClauseEnd : Terminal → Bool
  | .symbol .eof | .symbol .invalid | .symbol .semicolon | .symbol .closePar
  | .keyword .WHERE | .keyword .GROUP | .keyword .HAVING | .keyword .ORDER | .keyword .LIMIT
  | .keyword .WINDOW | .keyword .FOR | .keyword .LOCK | .keyword .UNION | .keyword .EXCEPT
  | .keyword .INTERSECT | .keyword .INTO | .keyword .SET | .keyword .ON | .keyword .USING => true
  | _ => false

/-! ## Passing over tokens -/

/-- The tokens without the first one, if it is of that kind. -/
def passOver (kind : Terminal) : List Token → List Token
  | [] => []
  | t :: rest => if t.kind = kind then rest else t :: rest

/-- The tokens behind the one that closes the current group, inside which `depth` more groups
are open. The end of the text is not passed over. -/
def passGroup (opening closing : Symbol) (depth : Nat) : List Token → List Token
  | [] => []
  | t :: rest =>
    if t.kind = .eof then t :: rest
    else if t.kind = .symbol opening then passGroup opening closing (depth + 1) rest
    else if t.kind = .symbol closing then
      match depth with
      | 0 => rest
      | outer + 1 => passGroup opening closing outer rest
    else passGroup opening closing depth rest

/-- The tokens behind a group in parentheses, if one starts here. -/
def passParenthesized : List Token → List Token
  | [] => []
  | t :: rest =>
    if t.kind = .symbol .openPar then passGroup .openPar .closePar 0 rest else t :: rest

/-- The tokens from the end of a join condition on. It ends at a comma, a join or a clause end
outside of the `depth` parentheses that are open. -/
def passCondition (depth : Nat) : List Token → List Token
  | [] => []
  | t :: rest =>
    if t.kind = .eof then t :: rest
    else if t.kind = .symbol .openPar then passCondition (depth + 1) rest
    else if t.kind = .symbol .closePar then
      match depth with
      | 0 => t :: rest
      | outer + 1 => passCondition outer rest
    else if depth = 0 ∧
        (t.kind = .symbol .comma ∨ isJoinWord t.kind = true ∨ isClauseEnd t.kind = true) then
      t :: rest
    else passCondition depth rest

/-! ## Names -/

/-- The name that a token is. -/
def nameOf (t : Token) : NameAt := ⟨Name.ofText t.text, t.span⟩

/-- A string can be an alias only behind `AS`; a name can be one anywhere. -/
def isAlias (explicit : Bool) : Terminal → Bool
  | .symbol .singleQuotedText | .symbol .doubleQuotedText => explicit
  | kind => kind.isNameLike

/-- Reads an alias, with or without `AS` in front. An `AS` without an alias is passed over. -/
def readAlias (tokens : List Token) : Option NameAt × List Token :=
  let explicit := headKind tokens == .keyword .AS
  match passOver (.keyword .AS) tokens with
  | [] => (none, [])
  | t :: rest =>
    if isAlias explicit t.kind then (some ⟨Name.ofAliasText t.text, t.span⟩, rest)
    else (none, t :: rest)

/-! ## Index hints -/

/-- A word that starts an index hint. -/
def isHintWord : Terminal → Bool
  | .keyword .USE | .keyword .IGNORE | .keyword .FORCE => true
  | _ => false

/-- What a hint is about. -/
def isIndexWord : Terminal → Bool
  | .keyword .INDEX | .keyword .KEY => true
  | _ => false

/-- The tokens behind `FOR JOIN`, `FOR ORDER BY` or `FOR GROUP BY`. -/
def passHintScope : List Token → List Token
  | [] => []
  | t :: rest =>
    if t.kind = .keyword .FOR then
      match rest with
      | [] => []
      | u :: tail => if u.kind = .keyword .JOIN then tail else passOver (.keyword .BY) tail
    else t :: rest

/-- The tokens behind a comma that another hint follows. -/
def passHintComma : List Token → List Token
  | t :: u :: rest =>
    if t.kind = .symbol .comma ∧ isHintWord u.kind = true then u :: rest else t :: u :: rest
  | tokens => tokens

/-- The tokens behind the index hints of a table, as long as the fuel lasts. -/
def passHints : (fuel : Nat) → List Token → List Token
  | fuel + 1, t :: u :: rest =>
    if isHintWord t.kind && isIndexWord u.kind then
      passHints fuel (passHintComma (passParenthesized (passHintScope rest)))
    else t :: u :: rest
  | _, tokens => tokens

/-! ## Single tables -/

section Readers

variable (bound : Nat)

/-- What follows the name of a table: partitions, an alias and index hints. -/
def finishTable (table : TableReference) (tokens : List Token) : Reading :=
  let tokens :=
    if headKind tokens = .keyword .PARTITION then passParenthesized (tokens.drop 1) else tokens
  let (alias?, rest) := readAlias tokens
  ⟨[{ table with alias? := alias? }], passHints bound rest⟩

/-- A table whose name starts with the token `first`, with or without a schema in front. -/
def readTable (first : Token) (tokens : List Token) : Reading :=
  match tokens with
  | point :: table :: rest =>
    if point.kind = .symbol .dot ∧ table.kind.isNameLike = true then
      finishTable bound (.ofTable (nameOf table) (some (nameOf first))) rest
    else finishTable bound (.ofTable (nameOf first) none) tokens
  | _ => finishTable bound (.ofTable (nameOf first) none) tokens

/-! ## Groups, joins and lists -/

/-- Behind its opening parentheses, a group is a list of tables unless a query starts there. -/
def startsQuery (tokens : List Token) : Bool :=
  match headKind (tokens.dropWhile fun t => t.kind == .symbol .openPar) with
  | .keyword .SELECT | .keyword .WITH | .keyword .VALUES | .keyword .TABLE => true
  | _ => false

/-- The readers for what is inside a group. -/
structure Inner where
  list : Reader
  reference : Reader

/-- Reads a single table, a derived table or a list in parentheses. Without readers for the
inside, a list in parentheses is passed over. -/
def factor (inner? : Option Inner) : Reader
  | [] => ⟨[], []⟩
  | t :: rest =>
    if t.kind = .symbol .openPar then
      if startsQuery (t :: rest) then ⟨[], (readAlias (passParenthesized (t :: rest))).2⟩
      else
        match inner? with
        | none => ⟨[], passParenthesized (t :: rest)⟩
        | some inner =>
          let inside := inner.list rest
          ⟨inside.tables, passOver (.symbol .closePar) inside.rest⟩
    else if t.kind = .keyword .LATERAL then ⟨[], (readAlias (passParenthesized rest)).2⟩
    else if t.kind = .keyword .DUAL then ⟨[], rest⟩
    else if t.kind.isNameLike then readTable bound t rest
    else ⟨[], t :: rest⟩

/-- The tokens behind the words that introduce a join, the last of which is `JOIN` or
`STRAIGHT_JOIN`. Words that introduce none are passed over, and the flag is `false`. -/
def passJoinWords : List Token → Bool × List Token
  | [] => (true, [])
  | t :: rest =>
    if t.kind = .keyword .JOIN ∨ t.kind = .keyword .STRAIGHT_JOIN ∨ t.kind = .eof then (true, rest)
    else if isJoinWord t.kind then passJoinWords rest
    else (false, t :: rest)

/-- The tokens behind a join condition. -/
def passJoinCondition (tokens : List Token) : List Token :=
  match tokens with
  | [] => []
  | t :: rest =>
    if t.kind = .keyword .ON then passCondition 0 rest
    else if t.kind = .keyword .USING then passParenthesized rest
    else t :: rest

/-- Reads joins as long as they go on and the fuel lasts. -/
def joins (inner? : Option Inner) : (fuel : Nat) → Reader
  | 0, tokens => ⟨[], tokens⟩
  | fuel + 1, tokens =>
    if isJoinWord (headKind tokens) then
      match passJoinWords tokens with
      | (false, rest) => ⟨[], rest⟩
      | (true, rest) =>
        let joined := factor bound inner? rest
        let more := joins inner? fuel (passJoinCondition joined.rest)
        ⟨joined.tables ++ more.tables, more.rest⟩
    else ⟨[], tokens⟩

/-- The word that introduces the group of an outer join in braces. -/
def isOuterJoinMark (t : Token) : Bool := t.text.map Char.toLower == "oj"

/-- The tokens behind the mark of an outer join. -/
def passOuterJoinMark : List Token → List Token
  | [] => []
  | t :: rest => if isOuterJoinMark t then rest else t :: rest

/-- Reads a group in braces, whose opening brace is passed already. -/
def braces (inner? : Option Inner) (tokens : List Token) : Reading :=
  match inner? with
  | none => ⟨[], passGroup .openCurly .closeCurly 0 tokens⟩
  | some inner =>
    let inside := inner.reference (passOuterJoinMark tokens)
    ⟨inside.tables, passGroup .openCurly .closeCurly 0 inside.rest⟩

/-- Reads a table with its joins, or a group in braces. -/
def reference (inner? : Option Inner) (tokens : List Token) : Reading :=
  if headKind tokens = .symbol .openCurly then braces inner? (tokens.drop 1)
  else
    let first := factor bound inner? tokens
    let more := joins bound inner? bound first.rest
    ⟨first.tables ++ more.tables, more.rest⟩

/-- A terminal that a reference can start with, or the first word of joins without a table in
front. Of any others `reference` takes none. -/
def startsReference (kind : Terminal) : Bool :=
  kind == .symbol .openCurly || kind == .symbol .openPar || kind == .keyword .LATERAL ||
    kind == .keyword .DUAL || kind.isNameLike || isJoinWord kind

/-- Reads a list of tables between commas, as long as the fuel lasts. Where neither a comma nor
an end follows a reference, one token is passed over and the reading goes on. -/
def list (inner? : Option Inner) : (fuel : Nat) → Reader
  | 0, tokens => ⟨[], tokens⟩
  | fuel + 1, tokens =>
    let first := reference bound inner? tokens
    let goOn := headKind first.rest = .symbol .comma ∨
      (startsReference (headKind tokens) = true ∧ isClauseEnd (headKind first.rest) = false)
    if goOn then
      let more := list inner? fuel (first.rest.drop 1)
      ⟨first.tables ++ more.tables, more.rest⟩
    else first

/-- The readers for the inside of a group, with `room` for more groups inside it. -/
def inside? : (room : Nat) → Option Inner
  | 0 => none
  | room + 1 =>
    some ⟨list bound (inside? room) bound, reference bound (inside? room)⟩

end Readers

/-- The most groups that are read inside one another; what is deeper is passed over. -/
def maxNesting : Nat := 64

/-- The tables of the clause that the tokens start with. -/
def tables (tokens : List Token) : List TableReference :=
  let tokens := passOver (.keyword .FROM) tokens
  let bound := tokens.length + 1
  (list bound (inside? bound maxNesting) bound tokens).tables

end SqlCompletion.FromClause
