import SqlCompletion.Text.CodePoints
set_option autoImplicit false

/-!
# Blanks

The characters with the property White_Space, and the trimming of them from both ends of a
text.
-/

namespace SqlCompletion.Text

/-- The code points with the property White_Space. -/
def blanks : CodePoints :=
  [(0x9, 0xD), (0x20, 0x20), (0x85, 0x85), (0xA0, 0xA0), (0x1680, 0x1680), (0x2000, 0x200A),
   (0x2028, 0x2029), (0x202F, 0x202F), (0x205F, 0x205F), (0x3000, 0x3000)]

/-- The character counts as white space. -/
def isBlank (c : Char) : Bool := blanks.contains c

/-- The text without the characters at its two ends that satisfy `p`. -/
def trimBoth (p : Char → Bool) (cs : List Char) : List Char :=
  ((cs.dropWhile p).reverse.dropWhile p).reverse

/-- The text without the blanks at its two ends. -/
def trimBlanks (cs : List Char) : List Char := trimBoth isBlank cs

end SqlCompletion.Text
