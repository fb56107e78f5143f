import SqlCompletion.Text.Blank
set_option autoImplicit false

/-!
# Quoted names

A name may be written in back-ticks or in double quotes; inside, the quote is doubled to stand
for itself.
-/

namespace SqlCompletion.Name

/-- The quotes of names: the back-tick and the double quote. -/
def isQuote (c : Char) : Bool := c == '\x60' || c == '"'

/-- The text with every doubled quote made single. -/
def undouble (quote : Char) : List Char → List Char
  | [] => []
  | [c] => [c]
  | c :: d :: rest =>
    if c = quote ∧ d = quote then quote :: undouble quote rest
    else c :: undouble quote (d :: rest)

/-- The text with every quote doubled. -/
def double (quote : Char) (cs : List Char) : List Char :=
  cs.flatMap fun c => if c = quote then [c, c] else [c]

/-- The name that a text stands for: what is between the quotes, if the text starts and ends
with the same quote, and otherwise the text itself. -/
def unquote (cs : List Char) : List Char :=
  match cs with
  | [] => []
  | c :: rest =>
    if isQuote c && rest.getLast? == some c then undouble c rest.dropLast else cs

/-- The name that the text of a token stands for. -/
def ofText (text : String) : String := String.ofList (unquote text.toList)

/-- The name that the text of an alias stands for: single quotes around it are dropped first. -/
def ofAliasText (text : String) : String :=
  String.ofList (unquote (Text.trimBoth (· == '\'') text.toList))

end SqlCompletion.Name
