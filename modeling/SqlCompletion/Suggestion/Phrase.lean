import SqlCompletion.Candidate.Basic
import SqlCompletion.Text.Casing
set_option autoImplicit false

/-!
# Phrases

The texts that are suggested for the terminals at the caret: the words of a terminal and of what
must follow it, and its synonyms. A terminal that an opening parenthesis must follow is a
function and is not suggested.
-/

namespace SqlCompletion.Phrase

/-- Shows the reading `NOT2` as `NOT`: if both are there, `NOT` keeps its place and takes over
what must follow `NOT2`. -/
def mergeNot (tokens : List (Terminal × List Terminal)) : List (Terminal × List Terminal) :=
  match tokens.lookup (.symbol .not2) with
  | none => tokens
  | some following =>
    assocInsert (.keyword .NOT) following (tokens.filter fun e => e.1 != .symbol .not2)

/-- The words of a terminal and of what must follow it; none for a function. -/
def text? (t : Terminal) (following : List Terminal) : Option String :=
  if following.head? = some (.symbol .openPar) then none
  else some (" ".intercalate ((t :: following).map Terminal.phrase))

/-- The text in upper or in lower case. -/
def fold (uppercase : Bool) (text : String) : String :=
  if uppercase then Text.upper text else Text.lower text

/-- The texts that are suggested for one terminal. -/
def ofCandidate (uppercase : Bool) (candidate : Terminal × List Terminal) : List String :=
  match text? candidate.1 candidate.2 with
  | none => []
  | some text => (text :: candidate.1.synonyms).map (fold uppercase)

/-- The texts that are suggested for the terminals at the caret. -/
def ofCandidates (uppercase : Bool) (tokens : List (Terminal × List Terminal)) : List String :=
  (mergeNot tokens).flatMap (ofCandidate uppercase)

end SqlCompletion.Phrase
