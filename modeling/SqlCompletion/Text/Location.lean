set_option autoImplicit false

/-!
# Places by line and column

A place in a text is told by its line and its column, or by the number of characters in front of
it. A line ends with a line feed and with nothing else. An index of the lines turns a place of the
first kind into one of the second.
-/

namespace SqlCompletion.Text

/-- A place in a text, by its line and its column. Both count from one. -/
structure Location where
  line : Nat
  column : Nat
  deriving DecidableEq, Repr, Inhabited

namespace Location

/-- The start of every text. -/
def origin : Location := ⟨1, 1⟩

/-- The place behind one character. -/
def next (l : Location) (c : Char) : Location :=
  if c = '\n' then ⟨l.line + 1, 1⟩ else ⟨l.line, l.column + 1⟩

/-- The place behind some characters. -/
def past (l : Location) (cs : List Char) : Location := cs.foldl next l

@[simp] theorem past_nil (l : Location) : l.past [] = l := rfl

@[simp] theorem past_cons (l : Location) (c : Char) (cs : List Char) :
    l.past (c :: cs) = (l.next c).past cs := rfl

theorem past_append (l : Location) (cs ds : List Char) :
    l.past (cs ++ ds) = (l.past cs).past ds := List.foldl_append

end Location

/-- Where the lines of a text start, and the number of its characters. -/
structure LineIndex where
  starts : Array Nat
  length : Nat
  deriving DecidableEq, Repr, Inhabited

namespace LineIndex

/-- Goes on with an index: `starts` holds the starts of the lines so far, and `length` characters
lie in front of the text. -/
def extend (starts : Array Nat) (length : Nat) : List Char → LineIndex
  | [] => ⟨starts, length⟩
  | c :: rest =>
    extend (if c = '\n' then starts.push (length + 1) else starts) (length + 1) rest

/-- The index of a text. Its first line starts at its first character. -/
def ofText (text : List Char) : LineIndex := extend #[0] 0 text

/-- The number of characters in front of a location. What is no location of the text counts as
its end. -/
def offset (ix : LineIndex) (l : Location) : Nat :=
  if l.line = 0 ∨ l.column = 0 then ix.length
  else
    match ix.starts[l.line - 1]? with
    | some start => min (start + l.column - 1) ix.length
    | none => ix.length

end LineIndex

end SqlCompletion.Text
