import SqlCompletion.Proofs.Reading
import SqlCompletion.Text.Blank
set_option autoImplicit false

/-!
# How far a lexeme looks

Where a lexeme ends is told by the characters behind it, but only by a few of them, and the reader
does not look past a blank. So the lexeme stays the same when the text behind it is exchanged for
one that looks the same from there (`Alike`): for a part of it (`alike_of_part`), or for more of it
where it holds a blank (`alike_append`).

* A lexeme stays the same when the text behind it is exchanged for one that looks alike
  (`first_alike`).
* Where the text is cut off right behind a lexeme, the lexeme stays the same too, but for one case
  (`first_cut`): behind a point, digits are a name if the mark of an exponent touches them, and the
  mark can be lost with the rest of the text (`Unmarked`).

All that is said elsewhere of texts that are cut or joined rests on these two. A lexeme is found by
counting characters, in another way for each kind of lexemes, so there is no single reason for them.
Each way of counting has a lemma of its own: runs of characters (`Foreseen.runLength`), quoted texts
(`Foreseen.quotedLength`), comments (`blockLength_append`), numbers (`Foreseen.number`) and
operators (`Foreseen.operatorAt?_some`). Then each kind of lexemes is steady (`Steady`), and
`first_steady` takes them together.

The mark of an exponent is the only thing that is looked at and may still be left to the next
lexeme. That is why `Alike` speaks of it besides of what can be seen (`Foreseen`). A lexeme that is
at fault is not treated here: only lexemes that are found stay the same.
-/

namespace SqlCompletion.Lexeme

/-! ## Texts that look alike -/

/-- What can be seen at the start of `w'` stands at the start of `w` too: marks that hold no blank
but for their last character. -/
def Foreseen (w w' : List Char) : Prop :=
  ∀ mark : List Char, (∀ c ∈ mark.dropLast, Text.isBlank c = false) → mark <+: w' → mark <+: w

/-- A reader that has come to the front of `w` may find `w'` there in its place. The mark of an
exponent must not get lost, since it tells a name behind a point from a number. -/
structure Alike (w w' : List Char) : Prop where
  marks : Foreseen w w'
  exponent : w' = [] → startsExponent w = false

section

variable {w w' : List Char}

/-- The text may be cut off. -/
theorem alike_of_part (h : w' <+: w) (hexponent : w' = [] → startsExponent w = false) :
    Alike w w' :=
  ⟨fun _ _ hmark => hmark.trans h, hexponent⟩

/-- More text may follow behind a blank. -/
theorem alike_append {b : Char} (hmem : b ∈ w) (hblank : Text.isBlank b = true) (z : List Char) :
    Alike w (w ++ z) where
  marks := by
    intro mark hfree hmark
    rcases Nat.lt_or_ge w.length mark.length with hlt | hle
    · -- The mark would reach past the blank.
      have hw : w <+: mark :=
        List.prefix_of_prefix_length_le (List.prefix_append w z) hmark (Nat.le_of_lt hlt)
      have hlast : w <+: mark.dropLast :=
        List.prefix_of_prefix_length_le hw mark.dropLast_prefix
          (by rw [List.length_dropLast]; omega)
      rw [hfree b (hlast.mem hmem)] at hblank
      cases hblank
    · exact List.prefix_of_prefix_length_le hmark (List.prefix_append w z) hle
  exponent := by
    intro hnil
    rw [(List.append_eq_nil_iff.1 hnil).1] at hmem
    cases hmem

theorem Foreseen.head {c : Char} (h : Foreseen w w') (hc : w'.head? = some c) :
    w.head? = some c := by
  obtain ⟨rest, rfl⟩ := List.head?_eq_some_iff.1 hc
  obtain ⟨more, rfl⟩ := h [c] (by simp) ⟨rest, rfl⟩
  rfl

theorem Foreseen.nil (h : Foreseen [] w') : w' = [] := by
  cases w' with
  | nil => rfl
  | cons c w' => cases h.head (c := c) rfl

theorem Foreseen.tail {c : Char} (h : Foreseen (c :: w) (c :: w')) (hc : Text.isBlank c = false) :
    Foreseen w w' := by
  intro mark hfree hmark
  cases mark with
  | nil => exact List.nil_prefix
  | cons d mark =>
    have hboth := h (c :: d :: mark) ?_ (List.cons_prefix_cons.2 ⟨rfl, hmark⟩)
    · exact (List.cons_prefix_cons.1 hboth).2
    · intro x hx
      rw [List.dropLast_cons_cons] at hx
      rcases List.mem_cons.1 hx with rfl | hx
      · exact hc
      · exact hfree x hx

/-- The same may stand in front. -/
theorem Foreseen.append (h : Foreseen w w') (v : List Char) : Foreseen (v ++ w) (v ++ w') := by
  intro mark hfree hmark
  rcases Nat.lt_or_ge v.length mark.length with hlt | hle
  · obtain ⟨m, rfl⟩ :=
      List.prefix_of_prefix_length_le (List.prefix_append v w') hmark (Nat.le_of_lt hlt)
    have hne : m ≠ [] := by
      rintro rfl
      simp at hlt
    refine (List.prefix_append_right_inj v).2 (h m ?_ ((List.prefix_append_right_inj v).1 hmark))
    intro c hc
    refine hfree c ?_
    rw [List.dropLast_append_of_ne_nil hne]
    exact List.mem_append_right v hc
  · exact (List.prefix_of_prefix_length_le hmark (List.prefix_append v w') hle).trans
      (List.prefix_append v w)

/-! ## Counting -/

/-- A run that ends inside of what stays the same ends there again. -/
theorem Foreseen.runLength (h : Foreseen w w') {p : Char → Bool} {v : List Char}
    (hle : Lexeme.runLength p (v ++ w) ≤ v.length) :
    Lexeme.runLength p (v ++ w') = Lexeme.runLength p (v ++ w) := by
  induction v with
  | nil =>
    rw [List.nil_append, List.nil_append] at *
    cases w' with
    | nil =>
      rw [Nat.le_zero.1 hle]
      rfl
    | cons c w' =>
      obtain ⟨more, rfl⟩ := List.head?_eq_some_iff.1 (h.head (c := c) rfl)
      cases hp : p c with
      | true => simp [Lexeme.runLength, hp] at hle
      | false => simp [Lexeme.runLength, hp]
  | cons c v ih =>
    cases hp : p c with
    | true =>
      simp only [Lexeme.runLength, List.cons_append, List.takeWhile_cons, hp, if_true,
        List.length_cons] at hle ⊢
      rw [Nat.add_right_cancel_iff]
      exact ih (by simpa [Lexeme.runLength] using hle)
    | false => simp [Lexeme.runLength, hp]

/-- A quoted text that ends inside of what stays the same ends there again. -/
theorem Foreseen.quotedLength (h : Foreseen w w') {quote : Char} {escapes : Bool} :
    ∀ {count : Nat} (v : List Char),
      Lexeme.quotedLength quote escapes count (v ++ w) = some (count + v.length) →
      Lexeme.quotedLength quote escapes count (v ++ w') = some (count + v.length)
  | count, [], hquoted => absurd (lt_quotedLength hquoted) (Nat.lt_irrefl count)
  | count, [c], hquoted => by
    -- The closing quote is the last character in front of `w`, so `w` does not go on with one.
    cases w with
    | nil => rwa [h.nil]
    | cons d w =>
      rw [List.singleton_append, Lexeme.quotedLength] at hquoted
      split at hquoted
      · have := lt_quotedLength hquoted
        simp at this
      · rename_i hescape
        split at hquoted
        · rename_i hquote
          split at hquoted
          · have := lt_quotedLength hquoted
            simp at this
          · rename_i hdouble
            cases w' with
            | nil => simp [Lexeme.quotedLength, hescape, hquote]
            | cons e w' =>
              obtain rfl : d = e := by simpa using h.head (c := e) rfl
              simp [Lexeme.quotedLength, hescape, hquote, hdouble]
        · have := lt_quotedLength hquoted
          simp at this
  | count, c :: d :: v, hquoted => by
    have hcount : count + (c :: d :: v).length = count + 2 + v.length := by
      simp only [List.length_cons]
      omega
    have hcount' : count + (c :: d :: v).length = count + 1 + (d :: v).length := by
      simp only [List.length_cons]
      omega
    rw [List.cons_append, List.cons_append, Lexeme.quotedLength] at hquoted ⊢
    split at hquoted
    · rename_i hescape
      rw [if_pos hescape]
      rw [hcount] at hquoted ⊢
      exact h.quotedLength v hquoted
    · rename_i hescape
      rw [if_neg hescape]
      split at hquoted
      · rename_i hquote
        rw [if_pos hquote]
        split at hquoted
        · rename_i hdouble
          rw [if_pos hdouble]
          rw [hcount] at hquoted ⊢
          exact h.quotedLength v hquoted
        · simp at hquoted
      · rename_i hquote
        rw [if_neg hquote]
        rw [hcount'] at hquoted ⊢
        exact h.quotedLength (d :: v) hquoted

theorem blockLength_le {count n : Nat} {cs : List Char} (h : blockLength count cs = some n) :
    n ≤ count + cs.length := by
  fun_induction blockLength count cs with
  | case1 => cases h
  | case2 => cases h
  | case3 =>
    cases h
    simp only [List.length_cons]
    omega
  | case4 count c d rest _ ih =>
    have := ih h
    simp only [List.length_cons] at this ⊢
    omega

/-- A block comment that ends inside of what stays the same ends there again. -/
theorem blockLength_append (w' : List Char) : ∀ {count n : Nat} (v : List Char),
    blockLength count (v ++ w) = some n → n ≤ count + v.length →
      blockLength count (v ++ w') = some n
  | count, n, [], hblock, hle => absurd (lt_blockLength hblock) (by simp at hle; omega)
  | count, n, [c], hblock, hle => by
    have hlt := lt_blockLength hblock
    rw [List.length_singleton] at hle
    omega
  | count, n, c :: d :: v, hblock, hle => by
    rw [List.cons_append, List.cons_append, blockLength] at hblock ⊢
    split at hblock
    · rename_i hclose
      rw [if_pos hclose]
      exact hblock
    · rename_i hclose
      rw [if_neg hclose]
      refine blockLength_append w' (d :: v) hblock ?_
      simp only [List.length_cons] at hle ⊢
      omega

/-- A block comment that does not end does not end in a part of the text either. -/
theorem blockLength_of_append {count : Nat} {v : List Char}
    (h : blockLength count (v ++ w) = none) : blockLength count v = none := by
  cases hblock : blockLength count v with
  | none => rfl
  | some n =>
    have hle := blockLength_le hblock
    have hagain := blockLength_append (w := []) w v (by rwa [List.append_nil]) hle
    cases h.symm.trans hagain

/-! ## Numbers -/

theorem exponentLength_singleton (e : Char) : exponentLength [e] = 0 := by
  simp [exponentLength, runLength]

theorem exponentLength_unmarked {e : Char} (he : (e == 'e' || e == 'E') = false)
    (rest : List Char) :
    exponentLength (e :: rest) = 0 := by
  unfold exponentLength
  dsimp only
  rw [he]
  rfl

theorem exponentLength_signed {e sign : Char} (he : (e == 'e' || e == 'E') = true)
    (hsign : sign = '+' ∨ sign = '-') (rest : List Char) :
    exponentLength (e :: sign :: rest) =
      if runLength Char.isDigit rest = 0 then 0 else 2 + runLength Char.isDigit rest := by
  unfold exponentLength
  dsimp only
  rw [if_pos he]
  rcases hsign with rfl | rfl <;> rfl

theorem exponentLength_unsigned {e digit : Char} (he : (e == 'e' || e == 'E') = true)
    (hsign : ¬(digit = '+' ∨ digit = '-')) (rest : List Char) :
    exponentLength (e :: digit :: rest) =
      if runLength Char.isDigit (digit :: rest) = 0 then 0
      else 1 + runLength Char.isDigit (digit :: rest) := by
  unfold exponentLength
  dsimp only
  rw [if_pos he]
  split
  · rename_i heq
    exact absurd (.inl (List.cons.inj heq).1) hsign
  · rename_i heq
    exact absurd (.inr (List.cons.inj heq).1) hsign
  · rfl

theorem not_blank_of_exponent {e : Char} (he : (e == 'e' || e == 'E') = true) :
    Text.isBlank e = false := by
  simp only [Bool.or_eq_true, beq_iff_eq] at he
  rcases he with rfl | rfl <;> decide

theorem not_blank_of_sign {sign : Char} (hsign : sign = '+' ∨ sign = '-') :
    Text.isBlank sign = false := by
  rcases hsign with rfl | rfl <;> decide

/-- An exponent has a digit besides its mark. -/
theorem exponentLength_eq_zero_of_le_one {cs : List Char} (h : exponentLength cs ≤ 1) :
    exponentLength cs = 0 := by
  unfold exponentLength at h ⊢
  grind

/-- A mark without an exponent does not get one. -/
theorem Foreseen.exponentLength_eq_zero (h : Foreseen w w') {e : Char}
    (hnone : exponentLength (e :: w) = 0) : exponentLength (e :: w') = 0 := by
  cases w' with
  | nil => exact exponentLength_singleton e
  | cons d w' =>
    obtain ⟨w, rfl⟩ := List.head?_eq_some_iff.1 (h.head (c := d) rfl)
    cases he : (e == 'e' || e == 'E') with
    | false => exact exponentLength_unmarked he _
    | true =>
      by_cases hsign : d = '+' ∨ d = '-'
      · rw [exponentLength_signed he hsign] at hnone ⊢
        have htail := h.tail (not_blank_of_sign hsign)
        have hzero : Lexeme.runLength Char.isDigit w = 0 := by
          split at hnone
          · assumption
          · omega
        have hsame := htail.runLength (p := Char.isDigit) (v := []) (by simp [hzero])
        simp only [List.nil_append] at hsame
        rw [hsame, hzero, if_pos rfl]
      · rw [exponentLength_unsigned he hsign] at hnone ⊢
        have hzero : Lexeme.runLength Char.isDigit (d :: w) = 0 := by
          split at hnone
          · assumption
          · omega
        have hsame := h.runLength (p := Char.isDigit) (v := []) (by simp [hzero])
        simp only [List.nil_append] at hsame
        rw [hsame, hzero, if_pos rfl]

/-- An exponent that ends inside of what stays the same ends there again. -/
theorem Foreseen.exponentLength (h : Foreseen w w') {v : List Char}
    (hle : Lexeme.exponentLength (v ++ w) ≤ v.length) :
    Lexeme.exponentLength (v ++ w') = Lexeme.exponentLength (v ++ w) := by
  cases v with
  | nil =>
    have hnone : Lexeme.exponentLength w = 0 := Nat.le_zero.1 hle
    rw [List.nil_append, List.nil_append, hnone]
    cases w' with
    | nil => rfl
    | cons e w' =>
      obtain ⟨w, rfl⟩ := List.head?_eq_some_iff.1 (h.head (c := e) rfl)
      cases he : (e == 'e' || e == 'E') with
      | false => exact exponentLength_unmarked he w'
      | true => exact (h.tail (not_blank_of_exponent he)).exponentLength_eq_zero hnone
  | cons e v =>
    cases he : (e == 'e' || e == 'E') with
    | false => rw [List.cons_append, List.cons_append, exponentLength_unmarked he,
        exponentLength_unmarked he]
    | true =>
      cases v with
      | nil =>
        have hnone := exponentLength_eq_zero_of_le_one hle
        rw [hnone]
        exact h.exponentLength_eq_zero hnone
      | cons d v =>
        simp only [List.cons_append, List.length_cons] at hle ⊢
        by_cases hsign : d = '+' ∨ d = '-'
        · rw [exponentLength_signed he hsign] at hle
          rw [exponentLength_signed he hsign, exponentLength_signed he hsign, h.runLength]
          split at hle <;> omega
        · rw [exponentLength_unsigned he hsign] at hle
          rw [exponentLength_unsigned he hsign, exponentLength_unsigned he hsign]
          have hsame := h.runLength (p := Char.isDigit) (v := d :: v) ?_
          · rw [List.cons_append, List.cons_append] at hsame
            rw [hsame]
          · rw [List.cons_append, List.length_cons]
            split at hle <;> omega

/-- What is found behind the mantissa of a number. -/
def numberEnd (after : Option Form) (point : Bool) (mantissa : Nat) (tail : List Char) :
    Form × Nat :=
  if startsExponent tail then
    let exponent := exponentLength tail
    if after == some (.operator .dot) then (.word, mantissa + exponent)
    else
      let long := if (tail.drop exponent).head? == some 'L' then 1 else 0
      (numberForm point (decide (0 < exponent)), mantissa + exponent + long)
  else
    let letters := runLength isWordPart tail
    if 0 < letters then (.word, mantissa + letters)
    else (numberForm point false, mantissa)

/-- What is found behind the digits in front of the point, and behind the point if there is one;
`mark` counts its characters. -/
def numberRest (after : Option Form) (whole : Nat) (point : Bool) (mark : Nat) (rest : List Char) :
    Form × Nat :=
  let fraction := runLength Char.isDigit rest
  if whole = 0 && fraction = 0 then (.operator .dot, 1)
  else numberEnd after point (whole + mark + fraction) (rest.drop fraction)

/-- What is found behind the digits that a number starts with. -/
def numberFrom (after : Option Form) (digits rest : List Char) : Form × Nat :=
  if digits == ['0'] && rest.head? == some 'x' then
    (.hexadecimal, 2 + runLength isHexDigit (rest.drop 1))
  else
    let point := rest.head? == some '.'
    let mark := if point then 1 else 0
    if digits.length = 0 && point && after.any Form.isName then (.operator .dot, 1)
    else numberRest after digits.length point mark (rest.drop mark)

theorem length_take_runLength (p : Char → Bool) (cs : List Char) :
    (cs.take (runLength p cs)).length = runLength p cs := by
  rw [List.length_take]
  exact Nat.min_eq_left (List.takeWhile_prefix p).length_le

theorem forall_take_runLength (p : Char → Bool) (cs : List Char) :
    ∀ c ∈ cs.take (runLength p cs), p c = true := by
  intro c hc
  rw [runLength, ← List.prefix_iff_eq_take.1 (List.takeWhile_prefix p)] at hc
  exact List.all_eq_true.1 List.all_takeWhile c hc

theorem number_eq (after : Option Form) (cs : List Char) :
    number after cs = numberFrom after (cs.take (runLength Char.isDigit cs))
      (cs.drop (runLength Char.isDigit cs)) := by
  unfold number numberFrom numberRest numberEnd
  dsimp only
  simp only [length_take_runLength, List.drop_drop, Nat.add_assoc]

theorem le_numberEnd (after : Option Form) (point : Bool) (mantissa : Nat) (tail : List Char) :
    mantissa ≤ (numberEnd after point mantissa tail).2 := by
  unfold numberEnd
  dsimp only
  split
  · split
    · exact Nat.le_add_right _ _
    · simp only
      omega
  · split
    · exact Nat.le_add_right _ _
    · exact Nat.le_refl _

theorem startsExponent_eq (cs : List Char) :
    startsExponent cs = cs.head?.any fun c => c == 'e' || c == 'E' := by
  unfold startsExponent
  split
  · rfl
  · rfl
  · rename_i hlower hupper
    cases cs with
    | nil => rfl
    | cons c cs =>
      have hnot : (c == 'e' || c == 'E') = false := by
        simp only [Bool.or_eq_false_iff, beq_eq_false_iff_ne]
        exact ⟨fun h => hlower cs (h ▸ rfl), fun h => hupper cs (h ▸ rfl)⟩
      simp [hnot]

theorem Foreseen.startsExponent (h : Foreseen w w') {v : List Char} (hsome : v ++ w' ≠ []) :
    startsExponent (v ++ w') = startsExponent (v ++ w) := by
  cases v with
  | cons c v =>
    rw [startsExponent_eq, startsExponent_eq]
    rfl
  | nil =>
    cases w' with
    | nil => exact absurd rfl hsome
    | cons c w' =>
      rw [startsExponent_eq, startsExponent_eq, List.nil_append, List.nil_append,
        h.head (c := c) rfl]
      rfl

theorem Foreseen.numberEnd_of_startsExponent (h : Foreseen w w') {after : Option Form}
    {point : Bool}
    {mantissa : Nat} {form : Form} {v : List Char}
    (hstarts : Lexeme.startsExponent (v ++ w') = Lexeme.startsExponent (v ++ w))
    (hend : Lexeme.numberEnd after point mantissa (v ++ w) = (form, mantissa + v.length)) :
    Lexeme.numberEnd after point mantissa (v ++ w') = (form, mantissa + v.length) := by
  unfold Lexeme.numberEnd at hend ⊢
  rw [hstarts]
  dsimp only at hend ⊢
  split at hend
  · rename_i hstart
    have hle : Lexeme.exponentLength (v ++ w) ≤ v.length := by
      split at hend
      · have := (Prod.mk.inj hend).2
        omega
      · have := (Prod.mk.inj hend).2
        omega
    rw [if_pos hstart, h.exponentLength hle]
    split at hend
    · rename_i hdot
      rw [if_pos hdot]
      exact hend
    · rename_i hdot
      rw [if_neg hdot]
      rw [List.drop_append_of_le_length hle] at hend ⊢
      have hrest := List.length_drop (i := Lexeme.exponentLength (v ++ w)) (l := v)
      generalize v.drop (Lexeme.exponentLength (v ++ w)) = rest at hend hrest ⊢
      cases rest with
      | cons c rest => exact hend
      | nil =>
        have hlong : ¬(w.head? == some 'L') = true := by
          intro hlong
          rw [List.nil_append, if_pos hlong] at hend
          have := (Prod.mk.inj hend).2
          simp only [List.length_nil] at hrest
          omega
        have hlong' : ¬(w'.head? == some 'L') = true := by
          intro hlong'
          exact hlong (beq_iff_eq.2 (h.head (beq_iff_eq.1 hlong')))
        rw [List.nil_append, if_neg hlong] at hend
        rw [List.nil_append, if_neg hlong']
        exact hend
  · rename_i hstart
    have hle : Lexeme.runLength isWordPart (v ++ w) ≤ v.length := by
      split at hend
      · have := (Prod.mk.inj hend).2
        omega
      · omega
    rw [if_neg hstart, h.runLength hle]
    exact hend

/-- The text behind a number was cut off, and with it the mark of an exponent. Behind a point, the
mark had made the number a name. -/
structure Unmarked (after : Option Form) (w w' : List Char) (form form' : Form) : Prop where
  point : after = some (.operator .dot)
  mark : startsExponent w = true
  cut : w' = []
  name : form = .word
  number : form' = .integer ∨ form' = .decimal

theorem Alike.not_unmarked (h : Alike w w') {after : Option Form} {form form' : Form} :
    ¬Unmarked after w w' form form' := by
  intro hunmarked
  have hmark := hunmarked.mark
  rw [h.exponent hunmarked.cut] at hmark
  cases hmark

theorem numberForm_false (point : Bool) :
    numberForm point false = .integer ∨ numberForm point false = .decimal := by
  cases point with
  | false => exact .inl rfl
  | true => exact .inr rfl

theorem Foreseen.numberEnd (h : Foreseen w w') {after : Option Form} {point : Bool}
    {mantissa : Nat} {form : Form} {v : List Char}
    (hend : Lexeme.numberEnd after point mantissa (v ++ w) = (form, mantissa + v.length)) :
    ∃ form', Lexeme.numberEnd after point mantissa (v ++ w') = (form', mantissa + v.length) ∧
      (form' = form ∨ Unmarked after w w' form form' ∧ v = []) := by
  by_cases hsome : v ++ w' ≠ []
  · exact ⟨form, h.numberEnd_of_startsExponent (h.startsExponent hsome) hend, .inl rfl⟩
  · obtain ⟨rfl, rfl⟩ := List.append_eq_nil_iff.1 (not_not.1 hsome)
    cases hmark : Lexeme.startsExponent w with
    | false => exact ⟨form, h.numberEnd_of_startsExponent hmark.symm hend, .inl rfl⟩
    | true =>
      refine ⟨numberForm point false, rfl, ?_⟩
      unfold Lexeme.numberEnd at hend
      rw [List.nil_append, if_pos hmark] at hend
      dsimp only at hend
      split at hend
      · rename_i hdot
        exact .inr ⟨⟨beq_iff_eq.1 hdot, hmark, rfl, (Prod.mk.inj hend).1.symm,
          numberForm_false point⟩, rfl⟩
      · obtain ⟨hform, hlength⟩ := Prod.mk.inj hend
        have hzero : Lexeme.exponentLength w = 0 := by
          rw [List.length_nil] at hlength
          omega
        rw [hzero] at hform
        exact .inl hform

theorem le_numberRest {after : Option Form} {whole mark : Nat} {point : Bool} {rest : List Char}
    (hpos : 0 < whole) : whole + mark ≤ (numberRest after whole point mark rest).2 := by
  unfold Lexeme.numberRest
  dsimp only
  have hne : ¬(decide (whole = 0) && decide (runLength Char.isDigit rest = 0)) = true := by
    simp
    omega
  rw [if_neg hne]
  exact Nat.le_trans (Nat.le_add_right _ _) (le_numberEnd ..)

theorem Foreseen.numberRest (h : Foreseen w w') {after : Option Form} {whole mark : Nat}
    {point : Bool} {form : Form} {v : List Char}
    (hrest : Lexeme.numberRest after whole point mark (v ++ w) = (form, whole + mark + v.length)) :
    ∃ form', Lexeme.numberRest after whole point mark (v ++ w') = (form', whole + mark + v.length) ∧
      (form' = form ∨ Unmarked after w w' form form' ∧ ∀ c ∈ v, c.isDigit = true) := by
  unfold Lexeme.numberRest at hrest ⊢
  dsimp only at hrest ⊢
  have hle : Lexeme.runLength Char.isDigit (v ++ w) ≤ v.length := by
    split at hrest
    · rename_i hnone
      simp only [Bool.and_eq_true, decide_eq_true_eq] at hnone
      omega
    · have hmantissa := le_numberEnd after point
        (whole + mark + Lexeme.runLength Char.isDigit (v ++ w))
        ((v ++ w).drop (Lexeme.runLength Char.isDigit (v ++ w)))
      rw [hrest] at hmantissa
      simp only at hmantissa
      omega
  rw [h.runLength hle]
  split at hrest
  · rename_i hnone
    rw [if_pos hnone]
    exact ⟨form, hrest, .inl rfl⟩
  · rename_i hsome
    rw [if_neg hsome]
    rw [List.drop_append_of_le_length hle] at hrest ⊢
    have hlength : whole + mark + v.length =
        whole + mark + Lexeme.runLength Char.isDigit (v ++ w) +
          (v.drop (Lexeme.runLength Char.isDigit (v ++ w))).length := by
      rw [List.length_drop]
      omega
    rw [hlength] at hrest ⊢
    obtain ⟨form', hend, hsame | ⟨hunmarked, hnil⟩⟩ := h.numberEnd hrest
    · exact ⟨form', hend, .inl hsame⟩
    · have hdigits := forall_take_runLength Char.isDigit (v ++ w)
      rw [List.take_append_of_le_length hle, List.take_of_length_le (List.drop_eq_nil_iff.1 hnil)]
        at hdigits
      exact ⟨form', hend, .inr ⟨hunmarked, hdigits⟩⟩

theorem le_numberFrom (after : Option Form) (digits rest : List Char) :
    digits.length ≤ (numberFrom after digits rest).2 := by
  rcases Nat.eq_zero_or_pos digits.length with hzero | hpos
  · omega
  · unfold numberFrom
    dsimp only
    split
    · rename_i hhex
      have hdigits : digits = ['0'] := by
        simp only [Bool.and_eq_true, beq_iff_eq] at hhex
        exact hhex.1
      simp only [hdigits, List.length_singleton]
      omega
    · split
      · rename_i hnone
        simp only [Bool.and_eq_true, decide_eq_true_eq] at hnone
        omega
      · exact Nat.le_trans (Nat.le_add_right _ _) (le_numberRest hpos)

/-- Where the digits are all that is taken, no point follows them. -/
theorem not_point_of_numberFrom {after : Option Form} {form : Form} {digits : List Char}
    (hpos : digits ≠ []) (h : numberFrom after digits w = (form, digits.length)) :
    w.head? ≠ some '.' := by
  intro hpoint
  have hlength := List.length_pos_iff.2 hpos
  have hhex : ¬(digits == ['0'] && w.head? == some 'x') = true := by
    rw [hpoint]
    simp
  have hname : ¬(decide (digits.length = 0) && w.head? == some '.' &&
      after.any Form.isName) = true := by
    simp [hpos]
  unfold numberFrom at h
  rw [if_neg hhex] at h
  dsimp only at h
  rw [if_neg hname, hpoint] at h
  have hle : digits.length + 1 ≤ (numberRest after digits.length true 1 (w.drop 1)).2 :=
    le_numberRest hlength
  simp only [beq_self_eq_true, if_true] at h
  rw [h] at hle
  simp only at hle
  omega

theorem Foreseen.numberFrom (h : Foreseen w w') {after : Option Form} {form : Form}
    {digits v : List Char} (hpos : digits ++ v ≠ [])
    (hfrom : Lexeme.numberFrom after digits (v ++ w) = (form, digits.length + v.length)) :
    ∃ form', Lexeme.numberFrom after digits (v ++ w') = (form', digits.length + v.length) ∧
      (form' = form ∨
        Unmarked after w w' form form' ∧ ∀ c ∈ v, c.isDigit = true ∨ c = '.') := by
  cases v with
  | nil =>
    rw [List.append_nil] at hpos
    rw [List.nil_append, List.length_nil, Nat.add_zero] at *
    have hpoint := not_point_of_numberFrom hpos hfrom
    have hpoint' : w'.head? ≠ some '.' := fun hc => hpoint (h.head hc)
    have hname : digits.length ≠ 0 := by simpa using hpos
    unfold Lexeme.numberFrom at hfrom ⊢
    split at hfrom
    · rename_i hhex
      have hdigits : digits = ['0'] := by
        simp only [Bool.and_eq_true, beq_iff_eq] at hhex
        exact hhex.1
      have hlength := (Prod.mk.inj hfrom).2
      rw [hdigits, List.length_singleton] at hlength
      omega
    · rename_i hhex
      have hhex' : ¬(digits == ['0'] && w'.head? == some 'x') = true := by
        intro hhex'
        simp only [Bool.and_eq_true, beq_iff_eq] at hhex hhex'
        exact hhex ⟨hhex'.1, h.head hhex'.2⟩
      rw [if_neg hhex']
      simp only [hname, beq_eq_false_iff_ne.2 hpoint, beq_eq_false_iff_ne.2 hpoint', decide_false,
        Bool.false_and, Bool.false_eq_true, if_false, List.drop_zero] at hfrom ⊢
      obtain ⟨form', hrest, hsame | ⟨hunmarked, -⟩⟩ := h.numberRest (v := []) hfrom
      · exact ⟨form', hrest, .inl hsame⟩
      · exact ⟨form', hrest, .inr ⟨hunmarked, by simp⟩⟩
  | cons c v =>
    -- The conditions look at `c` only.
    unfold Lexeme.numberFrom at hfrom ⊢
    rw [List.cons_append, List.head?_cons] at *
    split at hfrom
    · rename_i hhex
      rw [if_pos hhex]
      have hdigits : digits = ['0'] := by
        simp only [Bool.and_eq_true, beq_iff_eq] at hhex
        exact hhex.1
      have hrun : Lexeme.runLength isHexDigit (v ++ w) ≤ v.length := by
        have hlength := (Prod.mk.inj hfrom).2
        rw [hdigits] at hlength
        simp only [List.length_cons, List.length_nil, List.drop_succ_cons,
          List.drop_zero] at hlength
        omega
      rw [List.drop_succ_cons, List.drop_zero] at hfrom ⊢
      rw [h.runLength hrun]
      exact ⟨form, hfrom, .inl rfl⟩
    · rename_i hhex
      rw [if_neg hhex]
      dsimp only at hfrom ⊢
      split at hfrom
      · rename_i hname
        rw [if_pos hname]
        exact ⟨form, hfrom, .inl rfl⟩
      · rename_i hname
        rw [if_neg hname]
        by_cases hpoint : (some c == some '.') = true
        · rw [if_pos hpoint, List.drop_succ_cons, List.drop_zero] at hfrom ⊢
          rw [List.length_cons, Nat.add_comm v.length 1, ← Nat.add_assoc] at hfrom ⊢
          obtain ⟨form', hrest, hsame | ⟨hunmarked, hdigits⟩⟩ := h.numberRest hfrom
          · exact ⟨form', hrest, .inl hsame⟩
          · refine ⟨form', hrest, .inr ⟨hunmarked, List.forall_mem_cons.2 ⟨?_, ?_⟩⟩⟩
            · exact .inr (Option.some.inj (beq_iff_eq.1 hpoint))
            · exact fun x hx => .inl (hdigits x hx)
        · rw [if_neg hpoint, List.drop_zero] at hfrom ⊢
          rw [← Nat.add_zero digits.length, ← List.cons_append] at hfrom ⊢
          obtain ⟨form', hrest, hsame | ⟨hunmarked, hdigits⟩⟩ := h.numberRest hfrom
          · exact ⟨form', hrest, .inl hsame⟩
          · exact ⟨form', hrest, .inr ⟨hunmarked, fun x hx => .inl (hdigits x hx)⟩⟩

/-- A number that ends where the text stays the same is found again, but for the mark of an
exponent that gets lost. -/
theorem Foreseen.number (h : Foreseen w w') {after : Option Form} {form : Form} {v : List Char}
    (hpos : v ≠ []) (hnumber : Lexeme.number after (v ++ w) = (form, v.length)) :
    ∃ form', Lexeme.number after (v ++ w') = (form', v.length) ∧
      (form' = form ∨
        Unmarked after w w' form form' ∧ ∀ c ∈ v, c.isDigit = true ∨ c = '.') := by
  rw [number_eq] at hnumber ⊢
  have hle : Lexeme.runLength Char.isDigit (v ++ w) ≤ v.length := by
    have hdigits := le_numberFrom after ((v ++ w).take (Lexeme.runLength Char.isDigit (v ++ w)))
      ((v ++ w).drop (Lexeme.runLength Char.isDigit (v ++ w)))
    rwa [hnumber, length_take_runLength] at hdigits
  have hwhole := forall_take_runLength Char.isDigit (v ++ w)
  rw [h.runLength hle]
  generalize Lexeme.runLength Char.isDigit (v ++ w) = whole at hle hnumber hwhole ⊢
  rw [List.take_append_of_le_length hle] at hwhole
  rw [List.take_append_of_le_length hle, List.drop_append_of_le_length hle] at hnumber ⊢
  have hlength : v.length = (v.take whole).length + (v.drop whole).length := by
    rw [← List.length_append, List.take_append_drop]
  rw [hlength] at hnumber ⊢
  have hne : v.take whole ++ v.drop whole ≠ [] := by rwa [List.take_append_drop]
  obtain ⟨form', hfrom, hsame | ⟨hunmarked, hrest⟩⟩ := h.numberFrom hne hnumber
  · exact ⟨form', hfrom, .inl hsame⟩
  · refine ⟨form', hfrom, .inr ⟨hunmarked, fun c hc => ?_⟩⟩
    rw [← List.take_append_drop whole v] at hc
    rcases List.mem_append.1 hc with hc | hc
    · exact .inl (hwhole c hc)
    · exact hrest c hc

theorem Alike.number (h : Alike w w') {after : Option Form} {form : Form} {v : List Char}
    (hpos : v ≠ []) (hnumber : Lexeme.number after (v ++ w) = (form, v.length)) :
    Lexeme.number after (v ++ w') = (form, v.length) := by
  obtain ⟨form', hsame, rfl | ⟨hunmarked, -⟩⟩ := h.marks.number hpos hnumber
  · exact hsame
  · exact absurd hunmarked h.not_unmarked

/-! ## Operators -/

theorem operators_solid : ∀ o ∈ operators, ∀ c ∈ o.1, Text.isBlank c = false := by
  have hall : operators.all (fun o => o.1.all fun c => !Text.isBlank c) = true := by decide
  intro o ho c hc
  have hsolid := List.all_eq_true.1 (List.all_eq_true.1 hall o ho) c hc
  rwa [Bool.not_eq_true'] at hsolid

theorem Foreseen.operator (h : Foreseen w w') {o : List Char × Form} (ho : o ∈ operators)
    {v : List Char} (hstarts : o.1.isPrefixOf (v ++ w') = true) :
    o.1.isPrefixOf (v ++ w) = true := by
  rw [List.isPrefixOf_iff_prefix] at hstarts ⊢
  refine h.append v o.1 ?_ hstarts
  exact fun c hc => operators_solid o ho c (o.1.dropLast_subset hc)

/-- An operator that ends where the text stays the same is found again: a longer one would have
been found before. -/
theorem Foreseen.operatorAt?_some (h : Foreseen w w') {form : Form} {v : List Char}
    (hfound : operatorAt? (v ++ w) = some (form, v.length)) :
    operatorAt? (v ++ w') = some (form, v.length) := by
  obtain ⟨o, ho, heq⟩ := Option.map_eq_some_iff.1 hfound
  obtain ⟨hstarts, before, behind, hsplit, hnot⟩ := List.find?_eq_some_iff_append.1 ho
  have hv : o.1 = v := by
    have hlength : o.1.length = v.length := (Prod.mk.inj heq).2
    rw [List.isPrefixOf_iff_prefix] at hstarts
    exact (List.prefix_of_prefix_length_le hstarts (List.prefix_append v w)
      (Nat.le_of_eq hlength)).eq_of_length hlength
  refine Option.map_eq_some_iff.2 ⟨o, List.find?_eq_some_iff_append.2 ⟨?_, before, behind, hsplit,
    fun p hp => ?_⟩, heq⟩
  · rw [hv, List.isPrefixOf_iff_prefix]
    exact List.prefix_append v w'
  · have hmem : p ∈ operators := by
      rw [hsplit]
      exact List.mem_append_left _ hp
    have hlonger := hnot p hp
    rw [Bool.not_eq_true'] at hlonger ⊢
    cases hp' : p.1.isPrefixOf (v ++ w') with
    | false => rfl
    | true => exact (h.operator hmem hp').symm.trans hlonger

theorem Foreseen.operatorAt?_none (h : Foreseen w w') {v : List Char}
    (hnone : operatorAt? (v ++ w) = none) : operatorAt? (v ++ w') = none := by
  unfold operatorAt? at hnone ⊢
  rw [Option.map_eq_none_iff, List.find?_eq_none] at hnone ⊢
  exact fun o ho hstarts => hnone o ho (h.operator ho hstarts)

/-! ## One lexeme -/

theorem lineLength_eq (cs : List Char) :
    lineLength cs = min cs.length (runLength (· != '\n') cs + 1) := by
  have hle : runLength (· != '\n') cs ≤ cs.length := (List.takeWhile_prefix _).length_le
  unfold lineLength
  dsimp only
  split
  · rename_i hdrop
    have := List.drop_eq_nil_iff.1 hdrop
    omega
  · rename_i hdrop
    have hlt := List.length_drop (i := runLength (· != '\n') cs) (l := cs)
    rw [hdrop, List.length_cons] at hlt
    omega

/-- What a second at sign starts; `rest` is what follows it. -/
def doubleAtSign : List Char → Except Fault (Form × Nat)
  | [] => .ok (.unknown, 2)
  | d :: tail => if d == ' ' then .ok (.unknown, 2) else word 3 tail

/-- What an at sign starts with `c` behind it; `rest` is what follows both. -/
def atSignBefore (c : Char) (rest : List Char) : Except Fault (Form × Nat) :=
  if c == '>' || c == '?' then .ok (.unknown, 2)
  else if c == '@' then doubleAtSign rest
  else if c == ' ' || c == '\'' || c == '"' || c == '\x60' then .ok (.operator .atSign, 1)
  else word 2 rest

theorem atSign_cons (c : Char) (rest : List Char) :
    .ok (atSign (c :: rest)) = atSignBefore c rest := by
  unfold atSign atSignBefore
  dsimp only
  split
  · rfl
  · split
    · cases rest with
      | nil => rfl
      | cons d tail =>
        dsimp only
        rw [doubleAtSign]
        split <;> rfl
    · split <;> rfl

/-- An at sign that stands alone is told by the character behind it. -/
theorem atSignBefore_alone {c : Char} {rest : List Char} {form : Form}
    (h : atSignBefore c rest = .ok (form, 1)) :
    form = .operator .atSign ∧ ∀ rest', atSignBefore c rest' = .ok (form, 1) := by
  unfold atSignBefore at h ⊢
  split at h
  · cases h
  · split at h
    · cases rest with
      | nil => cases h
      | cons d tail =>
        rw [doubleAtSign] at h
        split at h
        · cases h
        · have hlength := (Prod.mk.inj (Except.ok.inj h)).2
          omega
    · split at h
      · rename_i hother hat halone
        cases h
        refine ⟨rfl, fun rest' => ?_⟩
        rw [if_neg hother, if_neg hat, if_pos halone]
      · have hlength := (Prod.mk.inj (Except.ok.inj h)).2
        omega

theorem number_point (after : Option Form) : number after ['.'] = (.operator .dot, 1) := by
  unfold number
  dsimp only
  split
  · rename_i hhex
    exact absurd hhex (by decide)
  · split
    · rfl
    · rfl

theorem not_head {q : Char} {rest : List Char} (h : ∀ tail, rest = q :: tail → False) :
    ¬(rest.head? == some q) = true := by
  intro hq
  obtain ⟨tail, rfl⟩ := List.head?_eq_some_iff.1 (beq_iff_eq.1 hq)
  exact h tail rfl

/-- A reader finds the same lexeme when the text behind it is exchanged for one that looks the same
in the sense of `sees`. The first `taken` characters of the lexeme stand in front of what is
read. -/
def Steady (sees : List Char → List Char → Prop) (taken : Nat)
    (read : List Char → Except Fault (Form × Nat)) : Prop :=
  ∀ (v w w' : List Char) (form : Form), sees w w' → read (v ++ w) = .ok (form, taken + v.length) →
    read (v ++ w') = .ok (form, taken + v.length)

section

variable {sees : List Char → List Char → Prop}

theorem Steady.ite {taken : Nat} {p : Prop} [Decidable p]
    {x y : List Char → Except Fault (Form × Nat)} (hx : Steady sees taken x)
    (hy : Steady sees taken y) :
    Steady sees taken (fun rest => if p then x rest else y rest) := by
  split
  · exact hx
  · exact hy

theorem Steady.congr {taken : Nat} {x y : List Char → Except Fault (Form × Nat)}
    (h : ∀ rest, x rest = y rest) (hy : Steady sees taken y) : Steady sees taken x := by
  rw [funext h]
  exact hy

theorem steady_const (taken : Nat) (found : Form × Nat) :
    Steady sees taken (fun _ => .ok found) :=
  fun _ _ _ _ _ hread => hread

theorem steady_blockComment :
    Steady sees 1 (fun rest =>
      match blockLength 2 (rest.drop 1) with
      | some n => .ok (.comment, n)
      | none => .error .unclosedComment) := by
  intro v w w' form h hread
  dsimp only at hread ⊢
  split at hread
  · rename_i n hblock
    obtain ⟨rfl, rfl⟩ := Prod.mk.inj (Except.ok.inj hread)
    cases v with
    | nil =>
      have := lt_blockLength hblock
      simp only [List.length_nil] at this
      omega
    | cons c v =>
      rw [List.cons_append, List.drop_succ_cons, List.drop_zero] at hblock ⊢
      rw [blockLength_append w' v hblock (by rw [List.length_cons]; omega)]
  · cases hread

variable (hsees : ∀ {w w' : List Char}, sees w w' → Foreseen w w')

include hsees

/-- The test looks for a mark behind what was taken, and the mark belongs to the lexeme. -/
theorem Steady.iteMark {taken : Nat} {q : List Char → Prop} [DecidablePred q]
    {x y : List Char → Except Fault (Form × Nat)} (hx : Steady sees taken x)
    (hy : Steady sees taken y)
    (hkeeps : ∀ v w w' form, q (v ++ w) → x (v ++ w) = .ok (form, taken + v.length) → q (v ++ w'))
    (hforeseen : ∀ v w w', Foreseen w w' → q (v ++ w') → q (v ++ w)) :
    Steady sees taken (fun rest => if q rest then x rest else y rest) := by
  intro v w w' form h hread
  dsimp only at hread ⊢
  split at hread
  · rename_i hq
    rw [if_pos (hkeeps v w w' form hq hread)]
    exact hx v w w' form h hread
  · rename_i hq
    rw [if_neg fun hq' => hq (hforeseen v w w' (hsees h) hq')]
    exact hy v w w' form h hread

theorem steady_word (known : Nat) : Steady sees known (word known) := by
  intro v w w' form h hread
  unfold word at hread ⊢
  have hrun : Lexeme.runLength isWordPart (v ++ w) = v.length := by
    have := (Prod.mk.inj (Except.ok.inj hread)).2
    omega
  rw [(hsees h).runLength (Nat.le_of_eq hrun)]
  exact hread

theorem steady_quoted (form : Form) (quote : Char) (escapes : Bool) (distance : Nat) :
    Steady sees (distance + 1) (quoted form quote escapes distance) := by
  intro v w w' found h hread
  unfold quoted at hread ⊢
  split at hread
  · rename_i n hn
    obtain ⟨rfl, rfl⟩ := Prod.mk.inj (Except.ok.inj hread)
    rw [(hsees h).quotedLength v hn]
  · cases hread

theorem steady_lineComment (c : Char) :
    Steady sees 1 (fun rest => .ok (.comment, lineLength (c :: rest))) := by
  intro v w w' form h hread
  obtain ⟨rfl, hline⟩ := Prod.mk.inj (Except.ok.inj hread)
  refine congrArg (fun n => Except.ok (Form.comment, n)) ?_
  rw [← List.cons_append, lineLength_eq, List.length_append] at hline ⊢
  have hcons : (c :: v).length = 1 + v.length := by
    rw [List.length_cons, Nat.add_comm]
  rcases Nat.lt_or_ge (runLength (· != '\n') (c :: v ++ w)) (c :: v).length with hlt | hge
  · rw [(hsees h).runLength (Nat.le_of_lt hlt)]
    omega
  · -- The comment ends with the text.
    obtain rfl : w = [] := List.length_eq_zero_iff.1 (by omega)
    rw [(hsees h).nil]
    omega

theorem steady_doubleAtSign : Steady sees 2 doubleAtSign := by
  intro v w w' form h hread
  cases v with
  | cons d v =>
    rw [List.cons_append, doubleAtSign, List.length_cons, Nat.add_comm v.length 1, ← Nat.add_assoc]
      at hread ⊢
    split at hread
    · rename_i hblank
      rw [if_pos hblank]
      exact hread
    · rename_i hblank
      rw [if_neg hblank]
      exact steady_word hsees 3 v w w' form h hread
  | nil =>
    rw [List.nil_append] at hread ⊢
    cases w with
    | nil => rwa [(hsees h).nil]
    | cons d w =>
      rw [doubleAtSign] at hread
      split at hread
      · rename_i hblank
        cases w' with
        | nil => exact hread
        | cons e w' =>
          obtain rfl : d = e := by simpa using (hsees h).head (c := e) rfl
          rw [doubleAtSign, if_pos hblank]
          exact hread
      · have hlength := (Prod.mk.inj (Except.ok.inj hread)).2
        simp only [List.length_nil] at hlength
        omega

theorem steady_atSignBefore (c : Char) : Steady sees 2 (atSignBefore c) :=
  .ite (steady_const 2 _) (.ite (steady_doubleAtSign hsees) (.ite (steady_const 2 _)
    (steady_word hsees 2)))

theorem steady_atSign : Steady sees 1 (fun rest => .ok (atSign rest)) := by
  intro v w w' form h hread
  cases v with
  | cons c v =>
    dsimp only at hread ⊢
    rw [List.cons_append, atSign_cons, List.length_cons, Nat.add_comm v.length 1, ← Nat.add_assoc]
      at hread ⊢
    exact steady_atSignBefore hsees c v w w' form h hread
  | nil =>
    rw [List.nil_append] at hread ⊢
    cases w with
    | nil => rwa [(hsees h).nil]
    | cons d w =>
      dsimp only at hread ⊢
      rw [atSign_cons] at hread
      obtain ⟨rfl, halone⟩ := atSignBefore_alone hread
      cases w' with
      | nil => rfl
      | cons e w' =>
        obtain rfl : d = e := by simpa using (hsees h).head (c := e) rfl
        rw [atSign_cons]
        exact halone w'

theorem steady_carriageReturn :
    Steady sees 1 (fun rest => .ok (.blank, if rest.head? == some '\n' then 2 else 1)) := by
  intro v w w' form h hread
  cases v with
  | cons c v => exact hread
  | nil =>
    dsimp only [List.nil_append] at hread ⊢
    split at hread
    · cases hread
    · rename_i hfeed
      rw [if_neg fun hfeed' => hfeed (beq_iff_eq.2 ((hsees h).head (beq_iff_eq.1 hfeed')))]
      exact hread

theorem steady_placeholder :
    Steady sees 1 (fun rest =>
      let digits := runLength Text.isNumeric rest
      if digits = 0 then .ok (.operator .paramMarker, 1) else .ok (.placeholder, 1 + digits)) := by
  intro v w w' form h hread
  dsimp only at hread ⊢
  have hrun : Lexeme.runLength Text.isNumeric (v ++ w) ≤ v.length := by
    split at hread
    · omega
    · have := (Prod.mk.inj (Except.ok.inj hread)).2
      omega
  rw [(hsees h).runLength hrun]
  exact hread

theorem steady_operator (c : Char) (other : Form × Nat) :
    Steady sees 1 (fun rest =>
      match operatorAt? (c :: rest) with
      | some found => .ok found
      | none => .ok other) := by
  intro v w w' form h hread
  dsimp only at hread ⊢
  rw [← List.cons_append] at hread ⊢
  split at hread
  · rename_i found hfound
    obtain rfl := Except.ok.inj hread
    rw [Nat.add_comm 1, ← List.length_cons] at hfound
    rw [(hsees h).operatorAt?_some hfound, List.length_cons, Nat.add_comm]
  · rename_i hnone
    rw [(hsees h).operatorAt?_none hnone]
    exact hread

/-- A letter may stand in front of a quoted text. -/
theorem steady_quotable (form : Form) (quote : Char) (escapes : Bool)
    {y : List Char → Except Fault (Form × Nat)} (hy : Steady sees 1 y) :
    Steady sees 1 (fun rest =>
      if (rest.head? == some quote) = true then quoted form quote escapes 1 (rest.drop 1)
      else y rest) := by
  have hlong : ∀ {rest : List Char} {found : Form} {n : Nat},
      quoted form quote escapes 1 rest = .ok (found, n) → 2 < n := by
    intro rest found n hread
    unfold quoted at hread
    split at hread
    · rename_i hn
      cases hread
      exact lt_quotedLength hn
    · cases hread
  refine .iteMark hsees ?_ hy ?_ ?_
  · intro v w w' found h hread
    cases v with
    | nil => exact absurd (hlong hread) (by simp)
    | cons c v =>
      have hcount : 1 + (c :: v).length = 1 + 1 + v.length := by
        rw [List.length_cons]
        omega
      rw [hcount] at hread ⊢
      exact steady_quoted hsees form quote escapes 1 v w w' found h hread
  · intro v w w' found hquote hread
    cases v with
    | nil => exact absurd (hlong hread) (by simp)
    | cons c v => exact hquote
  · intro v w w' h hquote
    rw [beq_iff_eq] at hquote ⊢
    exact (h.append v).head hquote

/-- A point in front of a name separates it from another one. -/
theorem steady_point {after : Option Form}
    (hnumber : Steady sees 1 (fun rest => .ok (number after ('.' :: rest)))) :
    Steady sees 1 (fun rest =>
      if (rest.head? == some '_') = true then
        if after.any Form.isName then .ok (.operator .dot, 1) else .error .strayPoint
      else .ok (number after ('.' :: rest))) := by
  intro v w w' form h hread
  dsimp only at hread ⊢
  split at hread
  · rename_i hname
    split at hread
    · rename_i hafter
      rw [if_pos hafter]
      split
      · exact hread
      · -- The name was cut off, and a point that ends the text is one that separates too.
        rename_i hname'
        obtain ⟨rfl, hlength⟩ := Prod.mk.inj (Except.ok.inj hread)
        obtain rfl : v = [] := List.length_eq_zero_iff.1 (by omega)
        cases w' with
        | nil => exact congrArg Except.ok (number_point after)
        | cons e w' =>
          rw [List.nil_append, (hsees h).head (c := e) rfl] at hname
          exact absurd hname hname'
    · cases hread
  · rename_i hname
    rw [if_neg fun hname' => hname (beq_iff_eq.2 (((hsees h).append v).head (beq_iff_eq.1 hname')))]
    exact hnumber v w w' form h hread

theorem steady_dashes (c : Char) {y : List Char → Except Fault (Form × Nat)}
    (hy : Steady sees 1 y) :
    Steady sees 1 (fun rest =>
      if (c == '#' || (c == '-' && ['-', ' '].isPrefixOf rest)) = true then
        .ok (.comment, lineLength (c :: rest))
      else y rest) := by
  cases hc : c == '#' with
  | true => exact steady_lineComment hsees c
  | false =>
    cases hdash : c == '-' with
    | false => exact hy
    | true =>
      refine .iteMark hsees (steady_lineComment hsees c) hy ?_ ?_
      · intro v w w' form hmark hread
        simp only [Bool.false_or, Bool.true_and, List.isPrefixOf_iff_prefix] at hmark ⊢
        have hlong : 2 ≤ v.length := by
          obtain ⟨more, hmore⟩ := hmark
          have hlength := (Prod.mk.inj (Except.ok.inj hread)).2
          rw [← hmore, beq_iff_eq.1 hdash, lineLength_eq] at hlength
          simp [runLength] at hlength
          omega
        exact (List.prefix_of_prefix_length_le hmark (List.prefix_append v w) hlong).trans
          (List.prefix_append v w')
      · intro v w w' h hmark
        simp only [Bool.false_or, Bool.true_and, List.isPrefixOf_iff_prefix] at hmark ⊢
        refine h.append v _ (fun c hc => ?_) hmark
        obtain rfl := List.mem_singleton.1 hc
        rfl

theorem steady_slash (c : Char) {y : List Char → Except Fault (Form × Nat)} (hy : Steady sees 1 y) :
    Steady sees 1 (fun rest =>
      if (c == '/' && rest.head? == some '*') = true then
        match blockLength 2 (rest.drop 1) with
        | some n => .ok (.comment, n)
        | none => .error .unclosedComment
      else y rest) := by
  refine .iteMark hsees steady_blockComment hy ?_ ?_
  · intro v w w' form hmark hread
    cases v with
    | cons d v => exact hmark
    | nil =>
      split at hread
      · rename_i n hblock
        have hlt := lt_blockLength hblock
        have hlength := (Prod.mk.inj (Except.ok.inj hread)).2
        simp only [List.length_nil] at hlength
        omega
      · cases hread
  · intro v w w' h hmark
    rw [Bool.and_eq_true, beq_iff_eq, beq_iff_eq] at hmark ⊢
    exact ⟨hmark.1, (h.append v).head hmark.2⟩

/-- A lexeme stays the same when the text behind it is exchanged, if numbers do. -/
theorem first_steady {after : Option Form} {c : Char}
    (hnumber : (c.isDigit || c == '.') = true →
      Steady sees 1 (fun rest => .ok (number after (c :: rest)))) :
    Steady sees 1 (first after c) := by
  unfold first
  -- One branch for each kind of first character, in the order of the definition.
  refine .ite (steady_const 1 _) (.ite (steady_carriageReturn hsees) (.ite ?binary (.ite ?national
    (.ite ?hexadecimal (.ite (steady_quoted hsees _ _ _ 0) (.ite (steady_quoted hsees _ _ _ 0)
    (.ite (steady_quoted hsees _ _ _ 0) ?point)))))))
  case binary =>
    refine .congr ?_ (steady_quotable hsees .binary '\'' false
      (steady_quotable hsees .unknown '"' false (steady_word hsees 1)))
    intro rest
    split
    · rfl
    · rfl
    · rename_i hsingle hdouble
      rw [if_neg (not_head hsingle), if_neg (not_head hdouble)]
  case national =>
    refine .congr ?_ (steady_quotable hsees .national '\'' true (steady_word hsees 1))
    intro rest
    split
    · rfl
    · rename_i hsingle
      rw [if_neg (not_head hsingle)]
  case hexadecimal =>
    refine .congr ?_ (steady_quotable hsees .hexadecimal '\'' true (steady_word hsees 1))
    intro rest
    split
    · rfl
    · rename_i hsingle
      rw [if_neg (not_head hsingle)]
  case point =>
    by_cases hc : c = '.'
    · subst hc
      exact .congr (fun _ => rfl) (steady_point hsees (hnumber rfl))
    · have hdot : (c == '.') = false := beq_eq_false_iff_ne.2 hc
      simp only [hdot, Bool.false_and, Bool.false_eq_true, if_false]
      cases hdigit : c.isDigit with
      | true => exact hnumber (by rw [hdigit, Bool.true_or])
      | false =>
        apply steady_dashes hsees c
        apply steady_slash hsees c
        exact .ite (steady_atSign hsees) (.ite (steady_placeholder hsees)
          (.ite (steady_word hsees 1) (steady_operator hsees c _)))

end

theorem steady_number (after : Option Form) (c : Char) :
    Steady Alike 1 (fun rest => .ok (number after (c :: rest))) := by
  intro v w w' form h hread
  have hnumber : number after (c :: v ++ w) = (form, (c :: v).length) := by
    rw [List.length_cons, Nat.add_comm]
    exact Except.ok.inj hread
  have hsame := h.number (List.cons_ne_nil c v) hnumber
  rw [List.length_cons, Nat.add_comm] at hsame
  exact congrArg Except.ok hsame

/-- A lexeme stays the same when the text behind it is exchanged for one that looks alike. -/
theorem first_alike (after : Option Form) (c : Char) : Steady Alike 1 (first after c) :=
  first_steady Alike.marks fun _ => steady_number after c

/-! ## Where the text is cut off -/

theorem first_of_digit {c : Char} (hc : c.isDigit = true) (after : Option Form)
    (rest : List Char) : first after c rest = .ok (number after (c :: rest)) := by
  have hne : ∀ x : Char, x.isDigit = false → (c == x) = false := by
    intro x hx
    rw [beq_eq_false_iff_ne]
    intro heq
    rw [← heq, hc] at hx
    cases hx
  unfold first
  simp only [hne ' ' rfl, hne '\t' rfl, hne '\n' rfl, hne '\r' rfl, hne 'b' rfl, hne 'B' rfl,
    hne 'n' rfl, hne 'N' rfl, hne 'x' rfl, hne 'X' rfl, hne '\'' rfl, hne '"' rfl, hne '\x60' rfl,
    hne '.' rfl, hc, Bool.or_self, Bool.false_and, Bool.true_or, Bool.false_eq_true, if_false,
    if_true]

theorem first_point (after : Option Form) (rest : List Char) :
    first after '.' rest =
      if (rest.head? == some '_') = true then
        if after.any Form.isName then .ok (.operator .dot, 1) else .error .strayPoint
      else .ok (number after ('.' :: rest)) := rfl

theorem first_of_point {rest : List Char} (hname : ¬(rest.head? == some '_') = true)
    (after : Option Form) : first after '.' rest = .ok (number after ('.' :: rest)) := by
  rw [first_point, if_neg hname]

section

variable {after : Option Form} {c : Char} {v : List Char} {form : Form}

theorem foreseen_nil (w : List Char) : Foreseen w [] := fun _ _ hmark => hmark.trans List.nil_prefix

theorem first_cut_of_number (hnumber : first after c (v ++ w) = .ok (number after (c :: (v ++ w))))
    (hcut : first after c v = .ok (number after (c :: v)))
    (hfirst : first after c (v ++ w) = .ok (form, 1 + v.length)) :
    ∃ form', first after c v = .ok (form', 1 + v.length) ∧
      (form' = form ∨
        Unmarked after w [] form form' ∧ ∀ x ∈ c :: v, x.isDigit = true ∨ x = '.') := by
  rw [hnumber, Nat.add_comm, ← List.length_cons (a := c)] at hfirst
  obtain ⟨form', hsame, hcases⟩ :=
    (foreseen_nil w).number (List.cons_ne_nil c v) (Except.ok.inj hfirst)
  rw [List.append_nil, List.length_cons, Nat.add_comm] at hsame
  exact ⟨form', by rw [hcut, hsame], hcases⟩

/-- At the end of the text a lexeme stays the same, but for the mark of an exponent that gets
lost. -/
theorem first_cut (hfirst : first after c (v ++ w) = .ok (form, 1 + v.length)) :
    ∃ form', first after c v = .ok (form', 1 + v.length) ∧
      (form' = form ∨
        Unmarked after w [] form form' ∧ ∀ x ∈ c :: v, x.isDigit = true ∨ x = '.') := by
  cases hc : c.isDigit || c == '.' with
  | false =>
    have hsteady : Steady Foreseen 1 (first after c) :=
      first_steady id fun hnumeric => absurd (hc.symm.trans hnumeric) (by simp)
    have hsame := hsteady v w [] form (foreseen_nil w) hfirst
    rw [List.append_nil] at hsame
    exact ⟨form, hsame, .inl rfl⟩
  | true =>
    cases hdigit : c.isDigit with
    | true =>
      exact first_cut_of_number (first_of_digit hdigit _ _) (first_of_digit hdigit _ _) hfirst
    | false =>
      rw [hdigit, Bool.false_or, beq_iff_eq] at hc
      subst hc
      by_cases hname : ((v ++ w).head? == some '_') = true
      · -- A name follows the point, and the point is all of the lexeme.
        rw [first_point, if_pos hname] at hfirst
        split at hfirst
        · obtain ⟨rfl, hlength⟩ := Prod.mk.inj (Except.ok.inj hfirst)
          obtain rfl : v = [] := List.length_eq_zero_iff.1 (by omega)
          exact ⟨_, congrArg Except.ok (number_point after), .inl rfl⟩
        · cases hfirst
      · refine first_cut_of_number (first_of_point hname after)
          (first_of_point (fun hname' => hname ?_) after) hfirst
        obtain ⟨more, rfl⟩ := List.head?_eq_some_iff.1 (beq_iff_eq.1 hname')
        exact hname'

end

end

end SqlCompletion.Lexeme
