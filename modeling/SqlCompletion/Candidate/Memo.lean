import Std.Data.TreeMap
import SqlCompletion.Grammar.Rule
import SqlCompletion.Candidate.Positions
set_option autoImplicit false

/-!
# Memory of a walk

A walk over a grammar keeps, for each rule that it has finished, where the rule can end. The
answer is kept per start and per outermost preferred rule that was open.
-/

namespace SqlCompletion

/-- What the memory is asked for: a rule, where it starts, and the outermost preferred rule that
is open around it. -/
structure MemoKey where
  rule : Rule
  start : Nat
  preferred : Option Rule
  deriving DecidableEq, Repr

namespace MemoKey

/-- The place of an optional rule in a row of all of them. -/
def rank : Option Rule → Nat
  | none => 0
  | some r => r.ctorIdx + 1

/-- The key as one number. -/
def code (k : MemoKey) : Nat := (k.start * 256 + rank k.preferred) * 256 + k.rule.ctorIdx

end MemoKey

/-- Where the rules that a walk has finished can end. -/
structure Memo where
  ends : Std.TreeMap Nat Positions := ∅

namespace Memo

/-- The memory of a walk that has not begun. -/
def empty : Memo := {}

/-- What is known for a key. -/
def find? (m : Memo) (k : MemoKey) : Option Positions := m.ends[k.code]?

/-- Keeps an answer. -/
def insert (m : Memo) (k : MemoKey) (ends : Positions) : Memo := ⟨m.ends.insert k.code ends⟩

end Memo

end SqlCompletion
