import SqlCompletion.Scanner
set_option autoImplicit false

/-!
# Scripts for a scanner

A script moves a scanner step by step and notes, after every step, what it answered and where it
stands. A part of a script can be run in a scope: then the scanner goes back to where it was.
Places are kept under names, also beyond the scope that they were kept in.
-/

namespace SqlCompletion.Scanner

/-- A step of a script. -/
inductive Step where
  | next
  | previous
  | seek (index : Nat)
  | advance (offset : Nat)
  /-- Keeps the place under a name. -/
  | save (name : String)
  /-- Goes back to the place that was kept under a name. -/
  | restore (name : String)
  | isAt (kind : Terminal)
  | lookBack
  | skip (kinds : List Terminal)
  | restText
  | clauseText
  /-- Runs some steps and goes back. -/
  | scoped (steps : List Step)
  deriving Repr, Inhabited

/-- What a step answers, apart from what happened in its scope. -/
inductive Answer where
  | nothing
  | flag (b : Bool)
  | kind (t : Terminal)
  | text (s : String)
  deriving DecidableEq, Repr, Inhabited

/-- What is noted after a step: its answer, or what was noted in its scope, and the scanner. -/
inductive Note where
  | plain (answer : Answer) (after : Scanner)
  | scope (notes : List Note) (after : Scanner)
  deriving Repr, Inhabited

/-- A scanner, and the places that are kept under names. -/
structure Session where
  scanner : Scanner
  saved : List (String × Nat) := []
  deriving Repr, Inhabited

namespace Session

/-- The session with the scanner moved. -/
def moved (s : Session) (scanner : Scanner) : Session := { s with scanner := scanner }

/-- A note of an answer. -/
def note (s : Session) (answer : Answer) : Note × Session := (.plain answer s.scanner, s)

/-- A note of whether a move succeeded. -/
def noteMove (s : Session) (move : Bool × Scanner) : Note × Session :=
  (s.moved move.2).note (.flag move.1)

mutual

/-- Runs one step. -/
def run (s : Session) : Step → Note × Session
  | .next => s.noteMove s.scanner.next
  | .previous => s.noteMove s.scanner.previous
  | .seek index => (s.moved (s.scanner.seek index)).note .nothing
  | .advance offset => (s.moved (s.scanner.advance offset)).note .nothing
  | .save name => { s with saved := (name, s.scanner.index) :: s.saved }.note .nothing
  | .restore name =>
    (s.moved (s.scanner.moveTo ((s.saved.lookup name).getD s.scanner.index))).note .nothing
  | .isAt kind => s.note (.flag (s.scanner.isAt kind))
  | .lookBack => s.note (.kind s.scanner.lookBack)
  | .skip kinds => s.noteMove (s.scanner.skip kinds)
  | .restText => s.note (.text s.scanner.restText)
  | .clauseText => s.note (.text s.scanner.clauseText)
  | .scoped steps =>
    let (notes, after) := s.runAll steps
    let back := after.moved (after.scanner.moveTo s.scanner.index)
    (.scope notes back.scanner, back)

/-- Runs some steps. -/
def runAll (s : Session) : List Step → List Note × Session
  | [] => ([], s)
  | step :: steps =>
    let (note, next) := s.run step
    let (notes, last) := next.runAll steps
    (note :: notes, last)

end

end Session

/-- What a script notes on a stream. -/
def runScript (stream : TokenStream) (steps : List Step) : List Note :=
  (Session.runAll ⟨start stream, []⟩ steps).1

end SqlCompletion.Scanner
