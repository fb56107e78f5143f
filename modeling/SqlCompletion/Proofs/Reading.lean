import Mathlib.Data.List.Basic
import SqlCompletion.Lexeme.Reading
set_option autoImplicit false

/-!
# Reading loses nothing

Two facts about the reading of a text, and what they give together.

* A location leads back to its offset: the index of the lines of a text turns the location behind
  its first `n` characters into `n` (`LineIndex.offset_past`). Line feeds inside quoted texts and
  comments are characters like any other here.
* The lexemes of a text follow each other without a gap and without an empty one (`Cut`), and so
  they do in the readable part of any text (`readable_cut`), however often the reading was cut back.

A lexeme has a form and a length. What forms there are is told by what the text starts with, and
each has its own way to find the length, so `first_proper` has a lemma for each: it takes at least
one character, and it is not the end of the text. Where the length of a lexeme could be more than
what is left, the text is at fault and there is no lexeme.

The two facts are about different representations. The reader counts lines and columns as it goes
along (`Location`), and the index of the lines is made from the whole text at once; `EndsAt` is the
invariant that ties them, one character after another.

Which lexemes are found is not told here, nor where the first fault of a text is.
-/

namespace SqlCompletion

open Text (Location LineIndex)

/-! ## Locations and offsets -/

namespace Text.LineIndex

/-- The location is the end of the text that the index was made from: its line is the last one,
and line start and column add up to the length. -/
def EndsAt (ix : LineIndex) (l : Location) : Prop :=
  l.line = ix.starts.size ∧ 0 < l.column ∧
    ∃ start, ix.starts[l.line - 1]? = some start ∧ start + l.column = ix.length + 1

theorem extend_append (starts : Array Nat) (length : Nat) (cs ds : List Char) :
    extend starts length (cs ++ ds) =
      extend (extend starts length cs).starts (extend starts length cs).length ds := by
  induction cs generalizing starts length with
  | nil => rfl
  | cons c cs ih => exact ih _ _

@[simp] theorem length_extend (starts : Array Nat) (length : Nat) (cs : List Char) :
    (extend starts length cs).length = length + cs.length := by
  induction cs generalizing starts length with
  | nil => rfl
  | cons c cs ih =>
    rw [extend, ih, List.length_cons]
    omega

@[simp] theorem length_ofText (cs : List Char) : (ofText cs).length = cs.length := by
  simp [ofText]

/-- Going on never moves the start of a line that is known. -/
theorem starts_extend_of_lt {starts : Array Nat} {i : Nat} (length : Nat) (cs : List Char)
    (hi : i < starts.size) : (extend starts length cs).starts[i]? = starts[i]? := by
  induction cs generalizing starts length with
  | nil => rfl
  | cons c cs ih =>
    rw [extend]
    split
    · rw [ih _ (by simp; omega), Array.getElem?_push_lt hi, Array.getElem?_eq_getElem hi]
    · exact ih _ hi

/-- One more character moves the end of the text as it moves the location. -/
theorem EndsAt.next {starts : Array Nat} {length : Nat} {l : Location} (c : Char)
    (h : EndsAt ⟨starts, length⟩ l) :
    EndsAt ⟨if c = '\n' then starts.push (length + 1) else starts, length + 1⟩ (l.next c) := by
  obtain ⟨hline, hcolumn, start, hstart, hsum⟩ := h
  dsimp only at hline hstart hsum
  unfold Location.next
  split
  · exact ⟨by simp [hline], by simp, length + 1, by simp [hline], rfl⟩
  · exact ⟨hline, by simp, start, hstart, by simp only; omega⟩

theorem EndsAt.past {starts : Array Nat} {length : Nat} {l : Location} (cs : List Char)
    (h : EndsAt ⟨starts, length⟩ l) : EndsAt (extend starts length cs) (l.past cs) := by
  induction cs generalizing starts length l with
  | nil => exact h
  | cons c cs ih => exact ih (h.next c)

theorem endsAt_ofText (cs : List Char) : EndsAt (ofText cs) (Location.origin.past cs) :=
  EndsAt.past cs ⟨rfl, Nat.one_pos, 0, rfl, rfl⟩

/-- The location behind the first characters of a text leads back to their number. -/
theorem offset_past (cs ds : List Char) :
    (ofText (cs ++ ds)).offset (Location.origin.past cs) = cs.length := by
  obtain ⟨hline, hcolumn, start, hstart, hsum⟩ := endsAt_ofText cs
  have hsize : (Location.origin.past cs).line - 1 < (ofText cs).starts.size :=
    (Array.getElem?_eq_some_iff.1 hstart).1
  have hfound : (ofText (cs ++ ds)).starts[(Location.origin.past cs).line - 1]? = some start := by
    rw [ofText, extend_append]
    exact (starts_extend_of_lt _ ds hsize).trans hstart
  have hnonzero : ¬((Location.origin.past cs).line = 0 ∨ (Location.origin.past cs).column = 0) := by
    omega
  rw [length_ofText] at hsum
  rw [offset, if_neg hnonzero, hfound, length_ofText, List.length_append]
  dsimp only
  omega

end Text.LineIndex

/-! ## One lexeme -/

namespace Lexeme

/-- A lexeme of this form and length takes at least one character, and it is not the end of the
text. -/
def Proper (found : Form × Nat) : Prop := found.1 ≠ .operator .eof ∧ 0 < found.2

theorem lt_quotedLength {quote : Char} {escapes : Bool} {count n : Nat} {cs : List Char}
    (h : quotedLength quote escapes count cs = some n) : count < n := by
  fun_induction quotedLength quote escapes count cs with
  | case1 => cases h
  | case2 => cases h
  | case3 => cases h; omega
  | case4 => cases h
  | case5 count c d rest _ ih => have := ih h; omega
  | case6 count c d rest _ _ _ ih => have := ih h; omega
  | case7 => cases h; omega
  | case8 count c d rest _ _ ih => have := ih h; omega

theorem lt_blockLength {count n : Nat} {cs : List Char} (h : blockLength count cs = some n) :
    count + 1 < n := by
  fun_induction blockLength count cs with
  | case1 => cases h
  | case2 => cases h
  | case3 => cases h; omega
  | case4 count c d rest _ ih => have := ih h; omega

theorem lineLength_cons_pos (c : Char) (cs : List Char) : 0 < lineLength (c :: cs) := by
  unfold lineLength
  dsimp only
  split
  · rename_i h
    have hlength := List.drop_eq_nil_iff.1 h
    rw [List.length_cons] at hlength
    omega
  · omega

theorem quoted_proper {form : Form} {quote : Char} {escapes : Bool} {distance : Nat}
    {rest : List Char} {found : Form × Nat} (hform : form ≠ .operator .eof)
    (h : quoted form quote escapes distance rest = .ok found) : Proper found := by
  unfold quoted at h
  split at h
  · rename_i n hn
    cases h
    have := lt_quotedLength hn
    exact ⟨hform, by simp only; omega⟩
  · cases h

theorem word_proper {known : Nat} {rest : List Char} {found : Form × Nat} (hknown : 0 < known)
    (h : word known rest = .ok found) : Proper found := by
  cases h
  exact ⟨by simp, by simp only; omega⟩

theorem atSign_proper (rest : List Char) : Proper (atSign rest) := by
  unfold atSign Proper
  split
  · exact ⟨by simp, by simp⟩
  · split
    · exact ⟨by simp, by simp⟩
    · split
      · split
        · exact ⟨by simp, by simp⟩
        · split
          · exact ⟨by simp, by simp⟩
          · exact ⟨by simp, by simp only; omega⟩
      · split
        · exact ⟨by simp, by simp⟩
        · exact ⟨by simp, by simp only; omega⟩

theorem numberForm_ne_operator (point exponent : Bool) (s : Symbol) :
    numberForm point exponent ≠ .operator s := by
  cases point <;> cases exponent <;> simp [numberForm]

/-- Whatever a number turns out to be, it takes a character: the digits in front of the point and
those behind it are not both missing where more than the point is taken. -/
theorem number_proper (after : Option Form) (cs : List Char) : Proper (number after cs) := by
  unfold number
  dsimp only
  generalize runLength Char.isDigit cs = whole
  generalize cs.drop whole = rest
  generalize (rest.head? == some '.') = point
  generalize (if point = true then 1 else 0) = mark
  generalize runLength Char.isDigit (rest.drop mark) = fraction
  split
  · exact ⟨by simp, by simp only; omega⟩
  · split
    · exact ⟨by simp, by simp⟩
    · split
      · exact ⟨by simp, by simp⟩
      · rename_i hdigits
        have hpos : 0 < whole + mark + fraction := by
          simp only [Bool.and_eq_true, decide_eq_true_eq] at hdigits
          omega
        generalize whole + mark + fraction = mantissa at hpos
        split
        · split
          · exact ⟨by simp, by simp only; omega⟩
          · exact ⟨numberForm_ne_operator _ _ _, by simp only; omega⟩
        · split
          · exact ⟨by simp, by simp only; omega⟩
          · exact ⟨numberForm_ne_operator point false _, hpos⟩

theorem operators_proper : ∀ o ∈ operators, Proper (o.2, o.1.length) := by
  unfold Proper
  decide

theorem operatorAt?_proper {cs : List Char} {found : Form × Nat}
    (h : operatorAt? cs = some found) : Proper found := by
  obtain ⟨o, ho, rfl⟩ := Option.map_eq_some_iff.1 h
  exact operators_proper o (List.mem_of_find?_eq_some ho)

/-- One of two readings, as a test decides: it is enough that each gives proper lexemes. -/
theorem proper_of_ite {p : Prop} [Decidable p] {x y : Except Fault (Form × Nat)}
    {found : Form × Nat} (hx : x = .ok found → Proper found) (hy : y = .ok found → Proper found)
    (h : (if p then x else y) = .ok found) : Proper found := by
  split at h
  · exact hx h
  · exact hy h

/-- Every lexeme takes at least one character and is not the end of the text. -/
theorem first_proper {after : Option Form} {c : Char} {rest : List Char} {found : Form × Nat} :
    first after c rest = .ok found → Proper found := by
  unfold first
  -- One branch for each kind of first character, in the order of the definition.
  refine proper_of_ite ?blank (proper_of_ite ?carriageReturn (proper_of_ite ?binary
    (proper_of_ite ?national (proper_of_ite ?hexadecimal (proper_of_ite (quoted_proper (by simp))
    (proper_of_ite (quoted_proper (by simp)) (proper_of_ite (quoted_proper (by simp))
    (proper_of_ite ?point (proper_of_ite ?number (proper_of_ite ?line (proper_of_ite ?block
    (proper_of_ite ?atSign (proper_of_ite ?placeholder (proper_of_ite (word_proper Nat.one_pos)
    ?operator))))))))))))))
  case blank =>
    intro h
    cases h
    exact ⟨by simp, by simp⟩
  case carriageReturn =>
    intro h
    cases h
    exact ⟨by simp, by simp only; split <;> omega⟩
  case binary =>
    split
    · exact quoted_proper (by simp)
    · exact quoted_proper (by simp)
    · exact word_proper Nat.one_pos
  case national =>
    split
    · exact quoted_proper (by simp)
    · exact word_proper Nat.one_pos
  case hexadecimal =>
    split
    · exact quoted_proper (by simp)
    · exact word_proper Nat.one_pos
  case point =>
    intro h
    split at h
    · cases h
      exact ⟨by simp, by simp⟩
    · cases h
  case number =>
    intro h
    cases h
    exact number_proper after (c :: rest)
  case line =>
    intro h
    cases h
    exact ⟨by simp, lineLength_cons_pos c rest⟩
  case block =>
    intro h
    split at h
    · rename_i n hn
      cases h
      have hlt := lt_blockLength hn
      exact ⟨by simp, by simp only; omega⟩
    · cases h
  case atSign =>
    intro h
    cases h
    exact atSign_proper rest
  case placeholder =>
    dsimp only
    refine proper_of_ite ?_ ?_
    · intro h
      cases h
      exact ⟨by simp, by simp⟩
    · intro h
      cases h
      exact ⟨by simp, by simp only; omega⟩
  case operator =>
    intro h
    split at h
    · rename_i o ho
      cases h
      exact operatorAt?_proper ho
    · cases h
      split
      · exact ⟨by simp, by simp⟩
      · exact ⟨by simp, by simp⟩

/-! ## All lexemes of a text -/

/-- The lexemes are a text that lies at `here`: each is proper, stands where the one in front of
it ends, and together they hold all the characters. -/
inductive Cut : Location → List Char → List Lexeme → Prop
  | nil (here : Location) : Cut here [] []
  | cons {here : Location} {form : Form} {text rest : List Char} {ls : List Lexeme}
      (nonempty : text ≠ []) (notEnd : form ≠ .operator .eof)
      (tail : Cut (here.past text) rest ls) :
      Cut here (text ++ rest) (⟨form, text, here, here.past text⟩ :: ls)

/-- What is read from a place on is a cut of the text there, behind the characters that belong to
the lexeme read last. -/
theorem readFrom_cut {after : Option Form} {here : Location} {skip : Nat} {done ls : List Lexeme}
    {text : List Char} (h : readFrom after here skip done text = .ok ls) :
    ∃ new, ls = done.reverse ++ new ∧ Cut (here.past (text.take skip)) (text.drop skip) new := by
  induction text generalizing after here skip done with
  | nil =>
    rw [readFrom] at h
    cases h
    refine ⟨[], (List.append_nil _).symm, ?_⟩
    rw [List.take_nil, List.drop_nil]
    exact .nil _
  | cons c rest ih =>
    cases skip with
    | succ k =>
      rw [readFrom] at h
      exact ih h
    | zero =>
      rw [readFrom] at h
      split at h
      · rename_i form n hfirst
        obtain ⟨hform, hpos⟩ := first_proper hfirst
        obtain ⟨new, rfl, hcut⟩ := ih h
        obtain ⟨k, rfl⟩ : ∃ k, n = k + 1 := ⟨n - 1, by simp only at hpos; omega⟩
        refine ⟨_, by rw [List.reverse_cons, List.append_assoc, List.singleton_append], ?_⟩
        have hsplit : (c :: rest).take (k + 1) ++ rest.drop k = c :: rest := by simp
        have hcons : Cut here ((c :: rest).take (k + 1) ++ rest.drop k)
            (⟨form, (c :: rest).take (k + 1), here, here.past ((c :: rest).take (k + 1))⟩ ::
              new) := by
          exact .cons (by simp) hform (by simpa using hcut)
        rwa [hsplit] at hcons
      · cases h

theorem read_cut {text : List Char} {ls : List Lexeme} (h : read text = .ok ls) :
    Cut .origin text ls := by
  obtain ⟨new, rfl, hcut⟩ := readFrom_cut h
  exact hcut

/-- However often the reading is cut back, what is read in the end is the text up to the limit. -/
theorem readUpTo_cut (text : List Char) (bound target : Nat) (hbound : bound ≤ text.length) :
    (readUpTo text bound target).2 ≤ text.length ∧
      Cut .origin (text.take (readUpTo text bound target).2) (readUpTo text bound target).1 := by
  induction bound generalizing target with
  | zero => exact ⟨Nat.zero_le _, .nil _⟩
  | succ bound ih =>
    rw [readUpTo]
    split
    · exact ih target (by omega)
    · dsimp only
      split
      · rename_i ls hread
        exact ⟨hbound, read_cut hread⟩
      · exact ih _ (by omega)

theorem readable_cut (text : List Char) :
    (readable text).2 ≤ text.length ∧
      Cut .origin (text.take (readable text).2) (readable text).1 :=
  readUpTo_cut text text.length text.length (Nat.le_refl _)

end Lexeme

end SqlCompletion
