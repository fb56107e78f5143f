import SqlCompletion.Candidate.Walk
import SqlCompletion.Token.Stream
set_option autoImplicit false

/-!
# Collecting candidates

The terminals in front of the caret are those of the visible tokens with an index below the
caret's.
-/

namespace SqlCompletion

/-- The terminals of the visible tokens in front of the caret. -/
def TokenStream.kindsBefore (s : TokenStream) (caretIndex : Nat) : List Terminal :=
  (s.visible.takeWhile fun t => decide (t.index < caretIndex)).map Token.kind

/-- The candidates at the caret by a grammar, at a server version. -/
def collect (g : Grammar) (v : Version) (s : TokenStream) (caretIndex : Nat) : Candidates :=
  (Walk.run ⟨g, v, (s.kindsBefore caretIndex).toArray⟩).2.candidates

end SqlCompletion
