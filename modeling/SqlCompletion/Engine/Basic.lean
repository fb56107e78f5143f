import SqlCompletion.Candidate.Collector
import SqlCompletion.Catalog.Binding
import SqlCompletion.Engine.Caret
import SqlCompletion.Engine.Error
import SqlCompletion.Engine.Options
import SqlCompletion.Engine.Scope
import SqlCompletion.Engine.Statement
import SqlCompletion.Mysql.Grammar
import SqlCompletion.Suggestion.Item
import SqlCompletion.Suggestion.Phrase
set_option autoImplicit false

/-!
# Completion at the caret

A request is served in five steps: the statement that the caret is in is cut out and read, the
caret becomes an index into its tokens, the candidates there are collected, the tables in scope
are looked up if a column could stand there, and all of it becomes suggestions.
-/

namespace SqlCompletion

/-- A collector of candidates: tokens and the index of the caret give what can stand there. -/
abbrev Collector := TokenStream → Nat → Candidates

/-- The collector by the MySQL grammar. -/
def Collector.mysql (d : Dialect) : Collector := collect Mysql.grammar d.version

/-- Options, with the parser and the collector that requests are served by. -/
structure Engine where
  options : Options
  parser : Parser
  collector : Collector

/-- The most bytes that a text may have: 10 MiB. -/
def maxTextBytes : Nat := 10 * 1024 * 1024

/-- A text that the parser was asked for, and the tables that it found. -/
structure Consultation where
  entry : Entry
  text : String
  references : List TableReference
  deriving DecidableEq, Repr, Inhabited

/-- What serving a request brought to light. -/
structure Analysis where
  /-- The span of the statement that was completed. -/
  statement : Span
  /-- The index of the caret in the tokens of the statement. -/
  caretIndex : Nat
  /-- What the parser was asked for, in order. -/
  consultations : List Consultation
  /-- The tables in scope, in the places of the whole text. -/
  references : List TableReference
  items : List Item
  deriving DecidableEq, Repr, Inhabited

namespace Engine

/-- The engine for MySQL. -/
def mysql (options : Options) : Engine :=
  ⟨options, .mysql options.dialect, .mysql options.dialect⟩

/-- What the tables in scope are needed for, if they are. -/
inductive Need where
  /-- A column of the tables of the statement. -/
  | column
  /-- A column of the table that is altered. -/
  | alteredColumn
  deriving DecidableEq, Repr, Inhabited

/-- What the rules at the caret need the tables in scope for; the first one that does decides. -/
def need? (rules : List Rule) : Option Need :=
  rules.findSome? fun
    | .columnRef => some .column
    | .columnInternalRef => some .alteredColumn
    | _ => none

/-- The tokens `FROM` that start the clauses in scope, for a caret that touches the token at
`touched`. -/
def clauseStarts (s : TokenStream) (caretIndex touched : Nat) : Option Need → List Token
  | some .column => Scope.leading s caretIndex ++ (Scope.trailing? s touched).toList
  | some .alteredColumn | none => []

/-- The tables in scope. -/
def tablesInScope (e : Engine) (s : TokenStream) (caretIndex touched : Nat) :
    Option Need → List TableReference
  | some .column =>
    (clauseStarts s caretIndex touched (some .column)).flatMap (Scope.clauseTables e.parser s)
  | some .alteredColumn => Scope.altered s touched
  | none => []

/-- The columns that a rule at the caret lets be suggested. -/
def columnsFor (e : Engine) (references : List TableReference) : Rule → List String
  | .tableWild | .columnRef => Binding.columnNames e.options.catalog? references
  | _ => []

/-- The tables that a rule at the caret lets be suggested. -/
def tablesFor (e : Engine) (references : List TableReference) : Rule → List String
  | .tableRef | .filterTableRef => Binding.tableNames e.options.catalog?
  | .columnInternalRef => ((Binding.firstTable? references).map Prod.fst).toList
  | _ => []

/-- The suggestions for some candidates, with the tables in scope. -/
def suggest (e : Engine) (candidates : Candidates) (references : List TableReference) :
    List Item :=
  Item.gather
    (Phrase.ofCandidates e.options.uppercaseKeywords candidates.tokens)
    (candidates.ruleNames.flatMap (e.columnsFor references))
    (candidates.ruleNames.flatMap (e.tablesFor references))

/-- The caret's offset under the policy, for a text of `length` characters. -/
def resolveOffset (policy : OffsetPolicy) (offset length : Nat) : Except Error Nat :=
  if offset ≤ length then .ok offset
  else
    match policy with
    | .clamp => .ok length
    | .strict => .error (.offsetOutOfRange offset length)

/-- Serves a request for a statement: `statement` is its span in the whole text, `text` are the
characters there, and `offset` counts from the start of the statement. -/
def analyzeStatement (e : Engine) (statement : Span) (text : String) (offset : Nat) : Analysis :=
  let parse := e.parser text .query
  let stream := parse.stream
  let touched := stream.indexAt offset
  let caretIndex := Caret.index stream offset
  let candidates := e.collector stream caretIndex
  let need := need? candidates.ruleNames
  let references :=
    (e.tablesInScope stream caretIndex touched need).map (·.shift statement.start)
  { statement := statement
    caretIndex := caretIndex
    consultations :=
      ⟨.query, text, parse.references⟩ ::
        (clauseStarts stream caretIndex touched need).map fun t =>
          let clause := stream.clauseText t.index
          ⟨.fromClause, clause, (e.parser clause .fromClause).references⟩
    references := references
    items := e.suggest candidates references }

/-- Serves a request: the caret stands in front of the character at `offset`. The size of the
text is looked at before anything else. -/
def analyze (e : Engine) (text : String) (offset : Nat) : Except Error Analysis :=
  if maxTextBytes < text.utf8ByteSize then
    .error (.inputTooLarge text.utf8ByteSize maxTextBytes)
  else do
    let offset ← resolveOffset e.options.offsetPolicy offset text.length
    let parse := e.parser text .query
    let statement := Statement.spanAt parse.stream offset
    let statementText := String.ofList (statement.extract text.toList)
    let analysis := e.analyzeStatement statement statementText (offset - statement.start)
    return { analysis with
      consultations := ⟨.query, text, parse.references⟩ :: analysis.consultations }

/-- The suggestions at the caret: keywords, then columns, then tables. -/
def complete (e : Engine) (text : String) (offset : Nat) : Except Error (List Item) :=
  (e.analyze text offset).map Analysis.items

end Engine

end SqlCompletion
