import SqlCompletion.Grammar.Element
set_option autoImplicit false

/-!
# Candidates

What the grammar could consume at the caret: terminals, each with the terminals that must follow
it, and preferred rules, each with the chains of open rules that it was reached through. Both are
kept in the order in which they were found.
-/

namespace SqlCompletion

/-- Puts a value under a key: a key that is there already keeps its place, a new one goes to the
end. -/
def assocInsert {α β : Type} [DecidableEq α] (key : α) (value : β) : List (α × β) → List (α × β)
  | [] => [(key, value)]
  | (k, v) :: rest =>
    if k = key then (k, value) :: rest else (k, v) :: assocInsert key value rest

/-- What the grammar could consume at the caret. -/
structure Candidates where
  /-- Terminals, with the terminals that must directly follow each. -/
  tokens : List (Terminal × List Terminal) := []
  /-- Preferred rules, with the chains of rules, outermost first, that lead to each. -/
  rules : List (Rule × List (List Rule)) := []
  deriving DecidableEq, Repr, Inhabited

namespace Candidates

/-- There is no candidate. -/
def isEmpty (c : Candidates) : Bool := c.tokens.isEmpty && c.rules.isEmpty

/-- The terminals that are candidates, in order. -/
def terminals (c : Candidates) : List Terminal := c.tokens.map Prod.fst

/-- The rules that are candidates, in order. -/
def ruleNames (c : Candidates) : List Rule := c.rules.map Prod.fst

/-- Notes a terminal and what must follow it. Two occurrences that differ in what must follow
leave nothing that must. -/
def addToken (c : Candidates) (t : Terminal) (following : List Terminal) : Candidates :=
  match c.tokens.lookup t with
  | none => { c with tokens := c.tokens ++ [(t, following)] }
  | some known =>
    if known = following then c else { c with tokens := assocInsert t [] c.tokens }

/-- Notes a rule and the chain of rules that led to it; a chain is noted once. -/
def addRule (c : Candidates) (r : Rule) (chain : List Rule) : Candidates :=
  match c.rules.lookup r with
  | none => { c with rules := c.rules ++ [(r, [chain])] }
  | some chains =>
    if chain ∈ chains then c else { c with rules := assocInsert r (chains ++ [chain]) c.rules }

end Candidates

/-! ## What must follow a terminal -/

/-- The terminals at the start of what follows an element in its sequence. An opening
parenthesis is kept only in the first place, where it tells a function call. -/
def followingTerminals : List Element → List Terminal
  | .token t :: rest =>
    if t = .symbol .openPar then [t]
    else if t.isIgnored then []
    else t :: keywordRun rest
  | _ => []
where
  /-- The terminals that can be offered, up to the first element that is none. -/
  keywordRun : List Element → List Terminal
    | .token t :: rest => if t.isIgnored then [] else t :: keywordRun rest
    | _ => []

end SqlCompletion
