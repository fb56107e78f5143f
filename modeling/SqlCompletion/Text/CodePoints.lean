set_option autoImplicit false

/-!
# Sets of code points

A property of characters is given by the code points that have it, as ranges in ascending order.
-/

namespace SqlCompletion.Text

/-- A set of code points, as ranges `(first, last)` with both ends included. -/
abbrev CodePoints := List (Nat × Nat)

/-- The character's code point lies in one of the ranges. -/
def CodePoints.contains (ranges : CodePoints) (c : Char) : Bool :=
  ranges.any fun r => decide (r.1 ≤ c.toNat) && decide (c.toNat ≤ r.2)

theorem CodePoints.contains_iff (ranges : CodePoints) (c : Char) :
    ranges.contains c = true ↔ ∃ r ∈ ranges, r.1 ≤ c.toNat ∧ c.toNat ≤ r.2 := by
  simp [CodePoints.contains]

end SqlCompletion.Text
