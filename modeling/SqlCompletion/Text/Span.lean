set_option autoImplicit false

/-!
# Spans

A half-open range of characters of a text. Offsets count characters, not bytes.
-/

namespace SqlCompletion

/-- The characters from `start` up to, not including, `stop`. -/
structure Span where
  start : Nat
  stop : Nat
  deriving DecidableEq, Repr, Inhabited

namespace Span

/-- The number of characters; a span that ends before it starts has none. -/
def length (s : Span) : Nat := s.stop - s.start

/-- The span holds no character. -/
def isEmpty (s : Span) : Bool := s.length == 0

/-- The offset lies inside the half-open range. -/
def contains (s : Span) (offset : Nat) : Bool :=
  decide (s.start ≤ offset) && decide (offset < s.stop)

/-- The span moved right by `delta` characters. -/
def shift (s : Span) (delta : Nat) : Span := ⟨s.start + delta, s.stop + delta⟩

theorem contains_iff (s : Span) (offset : Nat) :
    s.contains offset = true ↔ s.start ≤ offset ∧ offset < s.stop := by
  simp [contains]

theorem shift_shift (s : Span) (d e : Nat) : (s.shift d).shift e = s.shift (d + e) := by
  simp [shift, Nat.add_assoc]

end Span

/-- The characters of the text that lie in the span. -/
def Span.extract (s : Span) (text : List Char) : List Char :=
  (text.drop s.start).take s.length

end SqlCompletion
