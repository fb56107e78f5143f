import SqlCompletion.Server.Version
import SqlCompletion.Vocabulary.Terminal
import SqlCompletion.Grammar.Rule
set_option autoImplicit false

/-!
# Grammar elements

The right-hand side of a production: terminals, names and rules, put together by sequence,
choice, option and repetition. A part can be opened or closed by the server version.
-/

namespace SqlCompletion

/-- The right-hand side of a production. -/
inductive Element where
  /-- One terminal. -/
  | token (t : Terminal)
  /-- A name: an identifier, a quoted name or a keyword that is not reserved. -/
  | ident
  /-- Whatever the rule derives. -/
  | rule (r : Rule)
  /-- All of the items, one after the other. -/
  | seq (items : List Element)
  /-- One of the alternatives. -/
  | choice (alternatives : List Element)
  /-- The element or nothing. -/
  | opt (e : Element)
  /-- The element any number of times. -/
  | star (e : Element)
  /-- The element at least once. -/
  | plus (e : Element)
  /-- The element, on servers at or above the version. -/
  | since (v : Version) (e : Element)
  /-- The element, on servers below the version. -/
  | before (v : Version) (e : Element)
  deriving Repr, Inhabited

namespace Element

/-! ## Shorthands -/

/-- A keyword. -/
abbrev kw (k : Keyword) : Element := token (.keyword k)

/-- A symbol. -/
abbrev sym (s : Symbol) : Element := token (.symbol s)

/-- One of some keywords. -/
def anyKw (ks : List Keyword) : Element := choice (ks.map kw)

/-- One of some symbols. -/
def anySym (ss : List Symbol) : Element := choice (ss.map sym)

/-- The element, any number of times, with the symbol in between. -/
def separated (e : Element) (separator : Symbol) : Element :=
  seq [e, star (seq [sym separator, e])]

/-! ## Views -/

/-- The terminal of an element that is just a terminal. -/
def asToken? : Element → Option Terminal
  | token t => some t
  | _ => none

/-- The terminals of a choice that is made of terminals only. -/
def tokenSet? : Element → Option (List Terminal)
  | choice alternatives => alternatives.mapM asToken?
  | _ => none

mutual

/-- The rules that the element refers to, in order, with repetitions. -/
def rules : Element → List Rule
  | token _ => []
  | ident => []
  | rule r => [r]
  | seq items => rulesOf items
  | choice alternatives => rulesOf alternatives
  | opt e => e.rules
  | star e => e.rules
  | plus e => e.rules
  | since _ e => e.rules
  | before _ e => e.rules

/-- The rules that some elements refer to. -/
def rulesOf : List Element → List Rule
  | [] => []
  | e :: es => e.rules ++ rulesOf es

end

end Element

end SqlCompletion
