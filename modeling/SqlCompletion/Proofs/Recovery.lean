import SqlCompletion.Proofs.Locality
set_option autoImplicit false

/-!
# What is read of a text

A text is read from left to right, and then again up to ever smaller limits until there is no fault.
What comes out can be told without the limits: the lexemes in front of the first fault, each found
in the whole text that follows it (`Scans`), and at the fault one more lexeme or none (`Ends`).
`readable_of_scans` says so, and every text has such a description (`exists_scans`).

That one more lexeme is there since a smaller limit may cut the faulty lexeme into one that can be
read: a letter or a slash in front of a quoted text or a comment that does not end
(`Fault.salvage`). All the other text behind the fault is left unread.

The proof first goes through what one step of the reading can find (`first_possible`): a lexeme ends
inside of the text, a semicolon is one character, a blank starts with one of its marks, and a fault
is told by what the lexeme starts with (`Broken`). Then the limits are gone down: all that are tried
between the whole text and the last one fail, and the last one finds no fault (`readUpTo_eq`,
`readable_of_fault`).

The description is the same for a part of a text that looks alike from behind (`Scans.alike`), and
behind a semicolon it is that of a text of its own (`Scans.of_semicolon`). These are what statements
and clauses that are cut out of a text are read by. Where the places of the lexemes lie is only told
as far as it follows from their lengths (`located`).
-/

namespace SqlCompletion.Lexeme

open Text (Location LineIndex)

/-! ## What one step of the reading can find -/

/-- What a lexeme that starts with `c` and was found in front of a fault says of the text there. -/
inductive Broken : Char → List Char → Fault → Prop
  | point (rest : List Char) : Broken '.' rest .strayPoint
  | quote {c : Char} (rest : List Char) (quote : c ∈ ['\'', '"', '\x60']) :
      Broken c rest (.unclosedQuote 0)
  | letter {c : Char} (quote : Char) (rest : List Char)
      (letter : c ∈ ['b', 'B', 'n', 'N', 'x', 'X']) :
      Broken c (quote :: rest) (.unclosedQuote 1)
  | comment {rest : List Char} (unclosed : blockLength 2 rest = none) :
      Broken '/' ('*' :: rest) .unclosedComment

/-- The characters that make a blank. -/
def blankMarks : List Char := [' ', '\t', '\n', '\r', '\x0b', '\x0c']

/-- A lexeme ends inside of the text, a semicolon is one character, and a blank starts with one of
its marks. -/
structure Fits (c : Char) (rest : List Char) (found : Form × Nat) : Prop where
  inside : found.2 ≤ rest.length + 1
  semicolon : found.1 = .operator .semicolon → c = ';' ∧ found.2 = 1
  blank : found.1 = .blank ∨ found.1 = .operator .whitespace → c ∈ blankMarks

/-- What one step of the reading can give for the text that starts with `c` and goes on in
`rest`. -/
def Possible (c : Char) (rest : List Char) : Except Fault (Form × Nat) → Prop
  | .ok found => Fits c rest found
  | .error fault => Broken c rest fault

theorem runLength_le (p : Char → Bool) (cs : List Char) : runLength p cs ≤ cs.length :=
  (List.takeWhile_prefix p).length_le

theorem quotedLength_le {quote : Char} {escapes : Bool} {count n : Nat} {cs : List Char}
    (h : quotedLength quote escapes count cs = some n) : n ≤ count + cs.length := by
  fun_induction quotedLength quote escapes count cs with
  | case1 => cases h
  | case2 => cases h
  | case3 =>
    cases h
    exact Nat.le_refl _
  | case4 => cases h
  | case5 count c d rest _ ih =>
    have := ih h
    simp only [List.length_cons]
    omega
  | case6 count c d rest _ _ _ ih =>
    have := ih h
    simp only [List.length_cons]
    omega
  | case7 =>
    cases h
    simp only [List.length_cons]
    omega
  | case8 count c d rest _ _ ih =>
    have := ih h
    simp only [List.length_cons] at this ⊢
    omega

theorem exponentLength_le (cs : List Char) : exponentLength cs ≤ cs.length := by
  cases cs with
  | nil => exact Nat.le_refl 0
  | cons e rest =>
    cases he : (e == 'e' || e == 'E') with
    | false =>
      rw [exponentLength_unmarked he]
      exact Nat.zero_le _
    | true =>
      cases rest with
      | nil =>
        rw [exponentLength_singleton]
        exact Nat.zero_le _
      | cons d rest =>
        have hrest := runLength_le Char.isDigit rest
        have hall := runLength_le Char.isDigit (d :: rest)
        simp only [List.length_cons] at hall ⊢
        by_cases hsign : d = '+' ∨ d = '-'
        · rw [exponentLength_signed he hsign]
          split <;> omega
        · rw [exponentLength_unsigned he hsign]
          split <;> omega

theorem numberEnd_le (after : Option Form) (point : Bool) (mantissa : Nat) (tail : List Char) :
    (numberEnd after point mantissa tail).2 ≤ mantissa + tail.length := by
  have hexponent := exponentLength_le tail
  unfold numberEnd
  dsimp only
  split
  · split
    · exact Nat.add_le_add_left hexponent mantissa
    · split
      · rename_i hlong
        obtain ⟨more, hmore⟩ := List.head?_eq_some_iff.1 (beq_iff_eq.1 hlong)
        have hlength := congrArg List.length hmore
        rw [List.length_drop, List.length_cons] at hlength
        simp only
        omega
      · simp only
        omega
  · split
    · exact Nat.add_le_add_left (runLength_le isWordPart tail) mantissa
    · exact Nat.le_add_right _ _

theorem numberRest_le (after : Option Form) (whole : Nat) (point : Bool) (mark : Nat)
    (rest : List Char) :
    (numberRest after whole point mark rest).2 ≤ max 1 (whole + mark + rest.length) := by
  unfold numberRest
  dsimp only
  split
  · exact Nat.le_max_left ..
  · have hend := numberEnd_le after point (whole + mark + runLength Char.isDigit rest)
      (rest.drop (runLength Char.isDigit rest))
    have hrun := runLength_le Char.isDigit rest
    rw [List.length_drop] at hend
    omega

theorem number_le {after : Option Form} {cs : List Char} (hpos : cs ≠ []) :
    (number after cs).2 ≤ cs.length := by
  have hlength := List.length_pos_iff.2 hpos
  rw [number_eq]
  have hsplit : cs.length = (cs.take (runLength Char.isDigit cs)).length +
      (cs.drop (runLength Char.isDigit cs)).length := by
    rw [← List.length_append, List.take_append_drop]
  generalize cs.take (runLength Char.isDigit cs) = digits at hsplit ⊢
  generalize cs.drop (runLength Char.isDigit cs) = rest at hsplit ⊢
  unfold numberFrom
  dsimp only
  split
  · rename_i hhex
    rw [Bool.and_eq_true, beq_iff_eq, beq_iff_eq] at hhex
    obtain ⟨rfl, hmark⟩ := hhex
    obtain ⟨more, rfl⟩ := List.head?_eq_some_iff.1 hmark
    have hrun := runLength_le isHexDigit more
    simp only [List.length_cons, List.length_nil] at hsplit
    simp only [List.drop_succ_cons, List.drop_zero]
    omega
  · split
    · exact hlength
    · rename_i hname
      refine Nat.le_trans (numberRest_le ..) ?_
      rw [List.length_drop]
      split
      · rename_i hpoint
        obtain ⟨more, rfl⟩ := List.head?_eq_some_iff.1 (beq_iff_eq.1 hpoint)
        rw [List.length_cons] at hsplit ⊢
        omega
      · omega

/-- What can start with a digit or a point. -/
def numberForms : List Form :=
  [.word, .hexadecimal, .integer, .decimal, .float, .operator .dot]

theorem numberForm_mem (point exponent : Bool) : numberForm point exponent ∈ numberForms := by
  cases point <;> cases exponent <;> decide

theorem numberEnd_mem (after : Option Form) (point : Bool) (mantissa : Nat) (tail : List Char) :
    (numberEnd after point mantissa tail).1 ∈ numberForms := by
  unfold numberEnd
  dsimp only
  split
  · split
    · simp [numberForms]
    · exact numberForm_mem _ _
  · split
    · simp [numberForms]
    · exact numberForm_mem point false

theorem numberRest_mem (after : Option Form) (whole : Nat) (point : Bool) (mark : Nat)
    (rest : List Char) : (numberRest after whole point mark rest).1 ∈ numberForms := by
  unfold numberRest
  dsimp only
  split
  · simp [numberForms]
  · exact numberEnd_mem _ _ _ _

theorem number_mem (after : Option Form) (cs : List Char) :
    (number after cs).1 ∈ numberForms := by
  rw [number_eq]
  unfold numberFrom
  split
  · simp [numberForms]
  · dsimp only
    split
    · simp [numberForms]
    · exact numberRest_mem _ _ _ _ _

theorem number_fits (after : Option Form) (c : Char) (rest : List Char) :
    Fits c rest (number after (c :: rest)) := by
  have hform := number_mem after (c :: rest)
  refine ⟨number_le (List.cons_ne_nil c rest), fun h => ?_, fun h => ?_⟩
  · rw [h] at hform
    exact absurd hform (by decide)
  · rcases h with h | h <;> rw [h] at hform <;> exact absurd hform (by decide)

theorem atSign_fits (c : Char) (rest : List Char) : Fits c rest (atSign rest) := by
  unfold atSign
  split
  · exact ⟨by simp, by simp, by simp⟩
  · rename_i c rest
    split
    · exact ⟨by simp, by simp, by simp⟩
    · split
      · split
        · exact ⟨by simp, by simp, by simp⟩
        · rename_i d tail
          split
          · exact ⟨by simp, by simp, by simp⟩
          · have hrun := runLength_le isWordPart tail
            refine ⟨?_, by simp, by simp⟩
            simp only [List.length_cons]
            omega
      · split
        · exact ⟨by simp, by simp, by simp⟩
        · have hrun := runLength_le isWordPart rest
          refine ⟨?_, by simp, by simp⟩
          simp only [List.length_cons]
          omega

theorem operators_semicolon :
    ∀ o ∈ operators, o.2 = .operator .semicolon → o.1 = [';'] := by decide

theorem operators_not_blank :
    ∀ o ∈ operators, ¬(o.2 = .blank ∨ o.2 = .operator .whitespace) := by decide

theorem operatorAt?_fits {c : Char} {rest : List Char} {found : Form × Nat}
    (h : operatorAt? (c :: rest) = some found) : Fits c rest found := by
  obtain ⟨o, ho, rfl⟩ := Option.map_eq_some_iff.1 h
  have hstarts := List.find?_some ho
  rw [List.isPrefixOf_iff_prefix] at hstarts
  have hmem := List.mem_of_find?_eq_some ho
  refine ⟨hstarts.length_le, fun hform => ?_,
    fun hform => absurd hform (operators_not_blank o hmem)⟩
  have hmark := operators_semicolon o hmem hform
  rw [hmark] at hstarts
  exact ⟨(List.cons_prefix_cons.1 hstarts).1.symm, congrArg List.length hmark⟩

theorem word_fits {c : Char} {known : Nat} {rest : List Char} (h : known ≤ 1) :
    Fits c rest (.word, known + runLength isWordPart rest) := by
  have hrun := runLength_le isWordPart rest
  refine ⟨?_, by simp, by simp⟩
  simp only
  omega

/-- A quoted text whose opening quote stands at the start or behind a letter. -/
theorem quoted_possible {c : Char} {rest tail : List Char} {form : Form} {quote : Char}
    {escapes : Bool} {distance : Nat} (hform : form ≠ .operator .semicolon)
    (hsolid : ¬(form = .blank ∨ form = .operator .whitespace))
    (hlength : distance + tail.length ≤ rest.length)
    (hbroken : Broken c rest (.unclosedQuote distance)) :
    Possible c rest (quoted form quote escapes distance tail) := by
  unfold quoted
  split
  · rename_i n hn
    have hle := quotedLength_le hn
    refine ⟨?_, fun h => absurd h hform, fun h => absurd h hsolid⟩
    simp only
    omega
  · exact hbroken

theorem mem_letters {c x y : Char} {letters : List Char} (h : (c == x || c == y) = true)
    (hx : x ∈ letters) (hy : y ∈ letters) : c ∈ letters := by
  rw [Bool.or_eq_true, beq_iff_eq, beq_iff_eq] at h
  rcases h with rfl | rfl
  · exact hx
  · exact hy

/-- What is found is possible. -/
theorem first_possible (after : Option Form) (c : Char) (rest : List Char) :
    Possible c rest (first after c rest) := by
  unfold first
  refine iteInduction (fun hblank => ?blank) fun _ =>
    iteInduction (fun hreturn => ?carriageReturn) fun _ =>
    iteInduction (fun hletter => ?binary) fun _ =>
    iteInduction (fun hletter => ?national) fun _ =>
    iteInduction (fun hletter => ?hexadecimal) fun _ =>
    iteInduction (fun hquote => ?single) fun _ =>
    iteInduction (fun hquote => ?double) fun _ =>
    iteInduction (fun hquote => ?backTick) fun _ =>
    iteInduction (fun hpoint => ?point) fun _ =>
    iteInduction (fun _ => number_fits after c rest) fun _ =>
    iteInduction (fun _ => ?line) fun _ =>
    iteInduction (fun hslash => ?block) fun _ =>
    iteInduction (fun _ => atSign_fits c rest) fun _ =>
    iteInduction (fun _ => ?placeholder) fun _ =>
    iteInduction (fun _ => word_fits (Nat.le_refl 1)) fun _ => ?operator
  case blank =>
    refine ⟨by simp, by simp, fun _ => ?_⟩
    simp only [Bool.or_eq_true, beq_iff_eq] at hblank
    rcases hblank with (rfl | rfl) | rfl <;> decide
  case carriageReturn =>
    obtain rfl : c = '\r' := beq_iff_eq.1 hreturn
    refine ⟨?_, by simp, fun _ => by decide⟩
    simp only
    split
    · rename_i hfeed
      obtain ⟨more, rfl⟩ := List.head?_eq_some_iff.1 (beq_iff_eq.1 hfeed)
      simp
    · omega
  case binary =>
    have hmem : c ∈ ['b', 'B', 'n', 'N', 'x', 'X'] :=
      mem_letters hletter (by decide) (by decide)
    split
    · exact quoted_possible (by simp) (by simp) (by simp; omega) (.letter _ _ hmem)
    · exact quoted_possible (by simp) (by simp) (by simp; omega) (.letter _ _ hmem)
    · exact word_fits (Nat.le_refl 1)
  case national =>
    have hmem : c ∈ ['b', 'B', 'n', 'N', 'x', 'X'] :=
      mem_letters hletter (by decide) (by decide)
    split
    · exact quoted_possible (by simp) (by simp) (by simp; omega) (.letter _ _ hmem)
    · exact word_fits (Nat.le_refl 1)
  case hexadecimal =>
    have hmem : c ∈ ['b', 'B', 'n', 'N', 'x', 'X'] :=
      mem_letters hletter (by decide) (by decide)
    split
    · exact quoted_possible (by simp) (by simp) (by simp; omega) (.letter _ _ hmem)
    · exact word_fits (Nat.le_refl 1)
  case single => exact quoted_possible (by simp) (by simp) (by simp) (.quote rest (by grind))
  case double => exact quoted_possible (by simp) (by simp) (by simp) (.quote rest (by grind))
  case backTick => exact quoted_possible (by simp) (by simp) (by simp) (.quote rest (by grind))
  case point =>
    rw [Bool.and_eq_true, beq_iff_eq] at hpoint
    obtain ⟨rfl, -⟩ := hpoint
    exact iteInduction (fun _ => ⟨by simp, by simp, by simp⟩) fun _ => .point rest
  case line =>
    refine ⟨?_, by simp, by simp⟩
    simp only [lineLength_eq, List.length_cons]
    omega
  case block =>
    rw [Bool.and_eq_true, beq_iff_eq, beq_iff_eq] at hslash
    obtain ⟨rfl, hstar⟩ := hslash
    obtain ⟨tail, rfl⟩ := List.head?_eq_some_iff.1 hstar
    rw [List.drop_succ_cons, List.drop_zero]
    split
    · rename_i n hblock
      have hle := blockLength_le hblock
      refine ⟨?_, by simp, by simp⟩
      simp only [List.length_cons]
      omega
    · rename_i hblock
      exact .comment hblock
  case placeholder =>
    have hrun := runLength_le Text.isNumeric rest
    refine iteInduction (fun _ => ⟨by simp, by simp, by simp⟩) fun _ => ⟨?_, by simp, by simp⟩
    simp only
    omega
  case operator =>
    split
    · rename_i found hfound
      exact operatorAt?_fits hfound
    · refine iteInduction (fun htab => ⟨by simp, by simp, fun _ => ?_⟩)
        fun _ => ⟨by simp, by simp, by simp⟩
      simp only [Bool.or_eq_true, beq_iff_eq] at htab
      rcases htab with rfl | rfl <;> decide

/-- A semicolon in front is as good as the start of the text. -/
theorem first_semicolon (c : Char) (rest : List Char) :
    first (some (.operator .semicolon)) c rest = first none c rest := rfl

/-! ## The lexemes in front of a fault -/

/-- The characters of some lexemes. -/
def chars (ls : List (Form × List Char)) : List Char := ls.flatMap Prod.snd

@[simp] theorem chars_nil : chars [] = [] := rfl

@[simp] theorem chars_cons (l : Form × List Char) (ls : List (Form × List Char)) :
    chars (l :: ls) = l.2 ++ chars ls := rfl

@[simp] theorem chars_append (ls ms : List (Form × List Char)) :
    chars (ls ++ ms) = chars ls ++ chars ms := List.flatMap_append

/-- The form that the next lexeme stands behind. -/
def formBehind (after : Option Form) : List (Form × List Char) → Option Form
  | [] => after
  | l :: ls => formBehind (some l.1) ls

theorem formBehind_append (after : Option Form) (ls ms : List (Form × List Char)) :
    formBehind after (ls ++ ms) = formBehind (formBehind after ls) ms := by
  induction ls generalizing after with
  | nil => rfl
  | cons l ls ih => exact ih (some l.1)

/-- The lexemes are what is read, behind a lexeme of the form `after`, of a text that starts with
their characters and goes on with `rest`. -/
inductive Scans : Option Form → List (Form × List Char) → List Char → Prop
  | nil (after : Option Form) (rest : List Char) : Scans after [] rest
  | cons {after : Option Form} {form : Form} {c : Char} {v rest : List Char}
      {ls : List (Form × List Char)}
      (head : first after c (v ++ (chars ls ++ rest)) = .ok (form, 1 + v.length))
      (tail : Scans (some form) ls rest) : Scans after ((form, c :: v) :: ls) rest

section

variable {after : Option Form} {ls ms : List (Form × List Char)} {rest : List Char}

theorem scans_append : Scans after (ls ++ ms) rest ↔
    Scans after ls (chars ms ++ rest) ∧ Scans (formBehind after ls) ms rest := by
  induction ls generalizing after with
  | nil => exact ⟨fun h => ⟨.nil _ _, h⟩, fun h => h.2⟩
  | cons l ls ih =>
    rw [List.cons_append]
    constructor
    · intro h
      cases h with
      | cons head tail =>
        obtain ⟨hls, hms⟩ := ih.1 tail
        rw [chars_append, List.append_assoc] at head
        exact ⟨.cons head hls, hms⟩
    · rintro ⟨hls, hms⟩
      cases hls with
      | cons head tail =>
        rw [← List.append_assoc (chars ls), ← chars_append] at head
        exact .cons head (ih.2 ⟨tail, hms⟩)

theorem Alike.append {w w' : List Char} (h : Alike w w') (v : List Char) :
    Alike (v ++ w) (v ++ w') where
  marks := h.marks.append v
  exponent := by
    intro hnil
    obtain ⟨rfl, hw'⟩ := List.append_eq_nil_iff.1 hnil
    exact h.exponent hw'

/-- The text behind the lexemes may be exchanged for one that looks alike. -/
theorem Scans.alike {w w' : List Char} (h : Scans after ls w) (hw : Alike w w') :
    Scans after ls w' := by
  induction h with
  | nil => exact .nil _ _
  | cons head _ ih => exact .cons (first_alike _ _ _ _ _ _ (hw.append _) head) (ih hw)

/-- Lexemes behind a semicolon are those of a text of its own. -/
theorem Scans.of_semicolon (h : Scans (some (.operator .semicolon)) ls rest) :
    Scans none ls rest := by
  cases h with
  | nil => exact .nil _ _
  | cons head tail => exact .cons (first_semicolon _ _ ▸ head) tail

theorem Scans.semicolon (h : Scans after ls rest) {l : Form × List Char} (hl : l ∈ ls)
    (hsemicolon : l.1 = .operator .semicolon) : l.2 = [';'] := by
  induction h with
  | nil => cases hl
  | @cons after form c v rest ls head tail ih =>
    rcases List.mem_cons.1 hl with rfl | hl
    · have hpossible := first_possible after c (v ++ (chars ls ++ rest))
      rw [head] at hpossible
      obtain ⟨rfl, hlength⟩ := hpossible.semicolon hsemicolon
      simp only at hlength
      obtain rfl : v = [] := List.length_eq_zero_iff.1 (by omega)
      rfl
    · exact ih hl

end

/-! ## At a fault -/

/-- What can be read of the lexeme that a fault is found in. -/
def Fault.salvage (c : Char) : Fault → List (Form × List Char)
  | .unclosedQuote 0 | .strayPoint => []
  | .unclosedQuote _ => [(.word, [c])]
  | .unclosedComment => [(.operator .divide, [c])]

/-- The reading ends in front of `rest`, behind a lexeme of the form `after`: at the end of the
text, or at a fault. Then `saved` can still be read, and `unread` is left. -/
inductive Ends (after : Option Form) : List Char → List (Form × List Char) → List Char → Prop
  | whole : Ends after [] [] []
  | fault {c : Char} {rest unread : List Char} {fault : Fault}
      (found : first after c rest = .error fault)
      (left : c :: rest = chars (fault.salvage c) ++ unread) :
      Ends after (c :: rest) (fault.salvage c) unread

section

variable {after : Option Form} {ls saved : List (Form × List Char)} {rest unread : List Char}

theorem Ends.eq_append (h : Ends after rest saved unread) : rest = chars saved ++ unread := by
  cases h with
  | whole => rfl
  | fault _ left => exact left

theorem Ends.of_semicolon (h : Ends (some (.operator .semicolon)) rest saved unread) :
    Ends none rest saved unread := by
  cases h with
  | whole => exact .whole
  | fault found left => exact .fault (first_semicolon _ _ ▸ found) left

theorem Broken.left {c : Char} {fault : Fault} (h : Broken c rest fault) :
    ∃ unread, c :: rest = chars (fault.salvage c) ++ unread := by
  cases h with
  | point => exact ⟨_, rfl⟩
  | quote => exact ⟨_, rfl⟩
  | letter => exact ⟨_, rfl⟩
  | comment => exact ⟨_, rfl⟩

/-- Every text has lexemes up to its end or up to a fault. -/
theorem exists_scans (after : Option Form) (text : List Char) :
    ∃ ls rest saved unread, text = chars ls ++ rest ∧ Scans after ls rest ∧
      Ends (formBehind after ls) rest saved unread := by
  induction hn : text.length using Nat.strongRecOn generalizing after text with
  | ind n ih =>
    cases text with
    | nil => exact ⟨[], [], [], [], rfl, .nil _ _, .whole⟩
    | cons c text =>
      have hpossible := first_possible after c text
      cases hfirst : first after c text with
      | error fault =>
        rw [hfirst] at hpossible
        obtain ⟨unread, hleft⟩ := Broken.left hpossible
        exact ⟨[], c :: text, _, unread, rfl, .nil _ _, .fault hfirst hleft⟩
      | ok found =>
        rw [hfirst] at hpossible
        obtain ⟨form, k⟩ := found
        obtain ⟨k, rfl⟩ : ∃ m, k = 1 + m := by
          have hpos := (first_proper hfirst).2
          exact ⟨k - 1, by simp only at hpos; omega⟩
        have hinside := hpossible.inside
        simp only at hinside
        have hk : (text.take k).length = k := by
          rw [List.length_take]
          omega
        obtain ⟨ls, rest, saved, unread, hdrop, hscans, hends⟩ :=
          ih (text.drop k).length (by simp at hn ⊢; omega) (some form) (text.drop k) rfl
        refine ⟨(form, c :: text.take k) :: ls, rest, saved, unread, ?_, .cons ?_ hscans, hends⟩
        · rw [chars_cons, List.append_assoc, ← hdrop, List.cons_append, List.take_append_drop]
        · rw [← hdrop, List.take_append_drop, hk]
          exact hfirst

/-! ## Reading up to a limit -/

/-- The lexemes in their places, the first one at `here`. -/
def located (here : Location) : List (Form × List Char) → List Lexeme
  | [] => []
  | (form, text) :: ls => ⟨form, text, here, here.past text⟩ :: located (here.past text) ls

theorem map_located {α : Type} (f : Form → List Char → α) (here : Location)
    (ls : List (Form × List Char)) :
    (located here ls).map (fun l => f l.form l.text) = ls.map fun l => f l.1 l.2 := by
  induction ls generalizing here with
  | nil => rfl
  | cons l ls ih => exact congrArg (f l.1 l.2 :: ·) (ih _)

theorem readFrom_skip (after : Option Form) (here : Location) (done : List Lexeme)
    (v rest : List Char) :
    readFrom after here v.length done (v ++ rest) =
      readFrom after (here.past v) 0 done rest := by
  induction v generalizing here with
  | nil => rfl
  | cons c v ih =>
    rw [List.length_cons, List.cons_append, readFrom]
    exact ih _

/-- The reading finds the lexemes and goes on behind them. -/
theorem readFrom_of_scans (h : Scans after ls rest) (here : Location) (done : List Lexeme) :
    readFrom after here 0 done (chars ls ++ rest) =
      readFrom (formBehind after ls) (here.past (chars ls)) 0
        ((located here ls).reverse ++ done) rest := by
  induction h generalizing here done with
  | nil => rfl
  | @cons after form c v rest ls head tail ih =>
    have htake : (c :: (v ++ (chars ls ++ rest))).take (1 + v.length) = c :: v := by
      rw [Nat.add_comm, List.take_succ_cons, List.take_left]
    have hskip := readFrom_skip (some form) (here.next c)
      (⟨form, c :: v, here, here.past (c :: v)⟩ :: done) v (chars ls ++ rest)
    rw [chars_cons, List.append_assoc, List.cons_append, readFrom, head]
    dsimp only
    rw [htake, Nat.add_sub_cancel_left, hskip, ih, Location.past_append, located]
    simp [formBehind]

theorem read_of_scans (h : Scans none ls []) :
    read (chars ls) = .ok (located .origin ls) := by
  have hread := readFrom_of_scans h .origin []
  rw [List.append_nil, readFrom, List.append_nil, List.reverse_reverse] at hread
  exact hread

theorem read_of_fault {c : Char} {fault : Fault} (h : Scans none ls (c :: rest))
    (hfault : first (formBehind none ls) c rest = .error fault) :
    read (chars ls ++ c :: rest) =
      .error (fault.location (Location.origin.past (chars ls)) (c :: rest)) := by
  rw [read, readFrom_of_scans h, readFrom, hfault]

/-- The limit goes down to `limit` where all that is tried in between fails and no fault is found
in front of it. -/
theorem readUpTo_eq {text : List Char} {limit : Nat} {lexemes : List Lexeme}
    (hread : read (text.take limit) = .ok lexemes) (bound target : Nat) (hbound : limit ≤ bound)
    (htarget : limit ≤ target)
    (hfails : ∀ n, limit < n → n ≤ bound → n ≤ target → ∃ location,
      read (text.take n) = .error location ∧
        n ≤ (LineIndex.ofText (text.take n)).offset location) :
    readUpTo text bound target = (lexemes, limit) := by
  induction bound generalizing target with
  | zero =>
    obtain rfl : limit = 0 := Nat.le_zero.1 hbound
    cases hread
    rfl
  | succ bound ih =>
    rw [readUpTo]
    split
    · rename_i hle
      exact ih target (Nat.le_trans htarget hle) htarget
        fun n hn hnb hnt => hfails n hn (Nat.le_succ_of_le hnb) hnt
    · rename_i hlt
      rcases Nat.eq_or_lt_of_le hbound with rfl | hless
      · dsimp only
        rw [hread]
      · obtain ⟨location, hfault, hfar⟩ := hfails (bound + 1) hless (Nat.le_refl _) (by omega)
        dsimp only
        rw [hfault]
        refine ih _ (by omega) (by omega) fun n hn hnb _ => hfails n hn (by omega) (by omega)

/-- The first fault of a text tells the first smaller limit. -/
theorem readable_of_fault {text : List Char} {location : Location}
    (hfault : read text = .error location) :
    readable text =
      readUpTo text (text.length - 1) ((LineIndex.ofText text).offset location) := by
  have hpos : 0 < text.length := by
    cases text with
    | nil => cases hfault
    | cons c text => exact Nat.succ_pos _
  obtain ⟨n, hn⟩ : ∃ n, text.length = n + 1 := ⟨text.length - 1, by omega⟩
  have hall : text.take (n + 1) = text := List.take_of_length_le (by omega)
  rw [readable, hn, readUpTo, if_neg (by omega)]
  dsimp only
  rw [hall, hfault, Nat.add_sub_cancel]

theorem startsExponent_of_ne {c : Char} (hc : (c == 'e' || c == 'E') = false) (rest : List Char) :
    startsExponent (c :: rest) = false := by
  rw [startsExponent_eq, List.head?_cons]
  exact hc

theorem first_of_letter {c : Char} (hc : c ∈ ['b', 'B', 'n', 'N', 'x', 'X']) :
    first after c [] = .ok (.word, 1) := by
  simp only [List.mem_cons, List.not_mem_nil, or_false] at hc
  rcases hc with rfl | rfl | rfl | rfl | rfl | rfl <;> rfl

theorem first_of_slash : first after '/' [] = .ok (.operator .divide, 1) := rfl

theorem first_of_comment {tail : List Char} (h : blockLength 2 tail = none) :
    first after '/' ('*' :: tail) = .error .unclosedComment := by
  unfold first
  rw [List.drop_succ_cons, List.drop_zero, h]
  rfl

/-- Where the fault lies at the start of the lexeme, the text is read up to there. -/
theorem readable_of_scans_start {c : Char} {fault : Fault} (h : Scans none ls (c :: rest))
    (hfault : first (formBehind none ls) c rest = .error fault)
    (hc : (c == 'e' || c == 'E') = false)
    (hstart : fault.location (Location.origin.past (chars ls)) (c :: rest) =
      Location.origin.past (chars ls)) :
    readable (chars ls ++ c :: rest) = (located .origin ls, (chars ls).length) := by
  have hscans : Scans none ls [] :=
    h.alike (alike_of_part List.nil_prefix fun _ => startsExponent_of_ne hc rest)
  rw [readable_of_fault (read_of_fault h hfault), hstart, LineIndex.offset_past]
  refine readUpTo_eq ?_ _ _ ?_ (Nat.le_refl _) fun n hn _ hle => absurd hn (Nat.not_lt.2 hle)
  · rw [List.take_left]
    exact read_of_scans hscans
  · rw [List.length_append, List.length_cons]
    omega

/-- The first character of the faulty lexeme can be read by itself. -/
theorem scans_saved {c : Char} {form : Form} (h : Scans none ls (c :: rest))
    (hsaved : first (formBehind none ls) c [] = .ok (form, 1)) :
    Scans none (ls ++ [(form, [c])]) [] := by
  refine scans_append.2 ⟨h.alike (alike_of_part ?_ ?_), .cons hsaved (.nil _ _)⟩
  · exact ⟨rest, rfl⟩
  · intro hnil
    cases hnil

theorem take_saved (c : Char) :
    (chars ls ++ c :: rest).take ((chars ls).length + 1) = chars ls ++ [c] := by
  rw [List.take_length_add_append, List.take_succ_cons, List.take_zero]

theorem readable_of_scans_letter {c quote : Char} {tail : List Char}
    (h : Scans none ls (c :: quote :: tail))
    (hfault : first (formBehind none ls) c (quote :: tail) = .error (.unclosedQuote 1))
    (hc : c ∈ ['b', 'B', 'n', 'N', 'x', 'X']) :
    readable (chars ls ++ c :: quote :: tail) =
      (located .origin (ls ++ [(.word, [c])]), (chars ls).length + 1) := by
  have hoffset := LineIndex.offset_past (chars ls ++ [c]) (quote :: tail)
  rw [List.append_assoc, List.singleton_append, Location.past_append, List.length_append,
    List.length_singleton] at hoffset
  have hlocation : Fault.location (Location.origin.past (chars ls)) (c :: quote :: tail)
      (.unclosedQuote 1) = (Location.origin.past (chars ls)).past [c] := rfl
  rw [readable_of_fault (read_of_fault h hfault), hlocation, hoffset]
  refine readUpTo_eq ?_ _ _ ?_ (Nat.le_refl _) fun n hn _ hle => absurd hn (Nat.not_lt.2 hle)
  · have hread := read_of_scans (scans_saved h (first_of_letter hc))
    rw [take_saved]
    simpa using hread
  · simp only [List.length_append, List.length_cons]
    omega

theorem readable_of_scans_comment {tail : List Char} (h : Scans none ls ('/' :: '*' :: tail))
    (hblock : blockLength 2 tail = none) :
    readable (chars ls ++ '/' :: '*' :: tail) =
      (located .origin (ls ++ [(.operator .divide, ['/'])]), (chars ls).length + 1) := by
  -- Every part of the comment fails, and its fault lies where the part ends.
  have hpart : ∀ {part : List Char}, blockLength 2 part = none → part <+: tail →
      read (chars ls ++ '/' :: '*' :: part) =
          .error (Location.origin.past (chars ls ++ '/' :: '*' :: part)) ∧
        (LineIndex.ofText (chars ls ++ '/' :: '*' :: part)).offset
          (Location.origin.past (chars ls ++ '/' :: '*' :: part)) =
            (chars ls ++ '/' :: '*' :: part).length := by
    intro part hnone hstarts
    have hscans : Scans none ls ('/' :: '*' :: part) := by
      refine h.alike (alike_of_part ?_ ?_)
      · exact List.cons_prefix_cons.2 ⟨rfl, List.cons_prefix_cons.2 ⟨rfl, hstarts⟩⟩
      · intro hnil
        cases hnil
    constructor
    · rw [read_of_fault hscans (first_of_comment hnone), Location.past_append]
      rfl
    · have hoffset := LineIndex.offset_past (chars ls ++ '/' :: '*' :: part) []
      rwa [List.append_nil] at hoffset
  obtain ⟨hread, hoffset⟩ := hpart hblock (List.prefix_refl tail)
  rw [readable_of_fault hread, hoffset]
  refine readUpTo_eq ?_ _ _ ?_ ?_ fun n hn hle _ => ?_
  · have hsaved := read_of_scans (scans_saved h first_of_slash)
    rw [take_saved]
    simpa using hsaved
  · simp only [List.length_append, List.length_cons]
    omega
  · simp only [List.length_append, List.length_cons]
    omega
  · obtain ⟨k, rfl⟩ : ∃ k, n = (chars ls).length + (k + 1 + 1) :=
      ⟨n - (chars ls).length - 2, by omega⟩
    rw [List.take_length_add_append, List.take_succ_cons, List.take_succ_cons]
    have hnone : blockLength 2 (tail.take k) = none :=
      blockLength_of_append (w := tail.drop k) (by rwa [List.take_append_drop])
    obtain ⟨hfails, hend⟩ := hpart hnone (List.take_prefix k tail)
    refine ⟨_, hfails, ?_⟩
    rw [hend]
    simp only [List.length_append, List.length_cons, List.length_take] at hle ⊢
    omega

/-- What is read of a text: the lexemes in front of the first fault, and what is saved there. -/
theorem readable_of_scans (h : Scans none ls rest)
    (hends : Ends (formBehind none ls) rest saved unread) :
    readable (chars ls ++ rest) =
      (located .origin (ls ++ saved), (chars (ls ++ saved)).length) := by
  cases hends with
  | whole =>
    have hread : read ((chars ls).take (chars ls).length) = .ok (located .origin ls) := by
      rw [List.take_length]
      exact read_of_scans h
    rw [List.append_nil, List.append_nil]
    exact readUpTo_eq hread _ _ (Nat.le_refl _) (Nat.le_refl _)
      fun n hn hle _ => absurd hn (Nat.not_lt.2 hle)
  | @fault c rest _ fault found left =>
    have hbroken := first_possible (formBehind none ls) c rest
    rw [found] at hbroken
    cases hbroken with
    | point =>
      rw [Fault.salvage, List.append_nil]
      exact readable_of_scans_start h found rfl rfl
    | quote _ hquote =>
      rw [Fault.salvage, List.append_nil]
      refine readable_of_scans_start h found ?_ rfl
      simp only [List.mem_cons, List.not_mem_nil, or_false] at hquote
      rcases hquote with rfl | rfl | rfl <;> rfl
    | letter quote tail hletter =>
      have hread := readable_of_scans_letter h found hletter
      simpa [Fault.salvage] using hread
    | comment hblock =>
      have hread := readable_of_scans_comment h hblock
      simpa [Fault.salvage] using hread

end

end SqlCompletion.Lexeme
