import Mathlib.Data.List.Infix
import SqlCompletion.Proofs.Acceptance
set_option autoImplicit false

/-!
# Quoted texts and comments that do not end

Where a quoted text opens that does not end, the text in front of it is read as if it stood alone,
and all that follows is one invalid token. A block comment that does not end is no such token: its
fault is reported at the end of the text, so the text is cut shorter by one character after the
other until only the slash is left, which is read as a division (`tokens_of_unendedComment`). The
rest is the invalid token.

The main result tells both for every text and dialect (`TokenStream.tokens_unended`). What opens and
does not end is told without the reader: `Unclosed` is what follows an opening quote and lacks the
closing one, with doubled quotes and escapes in it, and no end is found just if there is none
(`quotedLength_eq_none_iff`).

The opening quote or comment has to be where a lexeme starts (`ComesTo`). It is so behind a blank if
there is no fault in front of it (`comesTo_behind_blank`). Quotes inside of a comment, or right
behind the letter that belongs to a string, are at no such place.
-/

namespace SqlCompletion

namespace Lexeme

/-! ## Texts without an end -/

/-- What follows an opening quote and lacks the closing one. -/
inductive Unclosed (quote : Char) (escapes : Bool) : List Char → Prop
  | nil : Unclosed quote escapes []
  | backslash (hescapes : escapes = true) : Unclosed quote escapes ['\\']
  | escaped {rest : List Char} (hescapes : escapes = true) (c : Char)
      (hrest : Unclosed quote escapes rest) : Unclosed quote escapes ('\\' :: c :: rest)
  | doubled {rest : List Char} (hrest : Unclosed quote escapes rest) :
      Unclosed quote escapes (quote :: quote :: rest)
  | other {c : Char} {rest : List Char} (hquote : c ≠ quote)
      (hplain : ¬(escapes = true ∧ c = '\\')) (hrest : Unclosed quote escapes rest) :
      Unclosed quote escapes (c :: rest)

/-- No end is found just if there is none. -/
theorem quotedLength_eq_none_iff {quote : Char} {escapes : Bool} {count : Nat} {cs : List Char} :
    quotedLength quote escapes count cs = none ↔ Unclosed quote escapes cs := by
  constructor
  · intro h
    fun_induction quotedLength quote escapes count cs with
    | case1 => exact .nil
    | case2 count c hescape =>
      rw [Bool.and_eq_true, beq_iff_eq] at hescape
      rw [hescape.2]
      exact .backslash hescape.1
    | case3 => cases h
    | case4 count c hplain hquote =>
      exact .other (by simpa using hquote) (by simpa using hplain) .nil
    | case5 count c d rest hescape ih =>
      rw [Bool.and_eq_true, beq_iff_eq] at hescape
      rw [hescape.2]
      exact .escaped hescape.1 d (ih h)
    | case6 count c d rest _ hquote hdoubled ih =>
      rw [beq_iff_eq.1 hquote, beq_iff_eq.1 hdoubled]
      exact .doubled (ih h)
    | case7 => cases h
    | case8 count c d rest hplain hquote ih =>
      exact .other (by simpa using hquote) (by simpa using hplain) (ih h)
  · intro h
    induction h generalizing count with
    | nil => rfl
    | backslash hescapes => simp [quotedLength, hescapes]
    | escaped hescapes c _ ih =>
      rw [quotedLength, if_pos (by simp [hescapes])]
      exact ih
    | doubled _ ih => simp [quotedLength, ih]
    | @other c rest hquote hplain _ ih =>
      have hplain : (escapes && c == '\\') = false := by simpa using hplain
      cases rest with
      | nil => simp [quotedLength, hplain, hquote]
      | cons d rest => simp [quotedLength, hplain, hquote, ih]

theorem blockLength_eq_none_iff {count : Nat} {cs : List Char} :
    blockLength count cs = none ↔ ¬['*', '/'] <:+: cs := by
  fun_induction blockLength count cs with
  | case1 => simp
  | case2 count c => simp [List.infix_cons_iff]
  | case3 count c d rest hmark =>
    rw [Bool.and_eq_true, beq_iff_eq, beq_iff_eq] at hmark
    rw [hmark.1, hmark.2]
    have hmem : ['*', '/'] <:+: '*' :: '/' :: rest := ⟨[], rest, rfl⟩
    simp [hmem]
  | case4 count c d rest hmark ih =>
    have hfirst : ¬['*', '/'] <+: c :: d :: rest := by
      intro hprefix
      obtain ⟨rfl, hnext⟩ := List.cons_prefix_cons.1 hprefix
      obtain ⟨rfl, -⟩ := List.cons_prefix_cons.1 hnext
      exact hmark (by decide)
    have hcons : ['*', '/'] <:+: c :: d :: rest ↔ _ := List.infix_cons_iff
    rw [ih, hcons, or_iff_right hfirst]

/-- A quoted text opens and does not end. Inside of single and of double quotes a backslash takes
the next character with it. -/
inductive OpensQuote : List Char → Prop
  | single {tail : List Char} (h : Unclosed '\'' true tail) : OpensQuote ('\'' :: tail)
  | double {tail : List Char} (h : Unclosed '"' true tail) : OpensQuote ('"' :: tail)
  | backTick {tail : List Char} (h : Unclosed '\x60' false tail) : OpensQuote ('\x60' :: tail)

/-- A block comment opens and does not end. -/
inductive OpensComment : List Char → Prop
  | mk {tail : List Char} (h : ¬['*', '/'] <:+: tail) : OpensComment ('/' :: '*' :: tail)

section

variable {back : List Char} {after : Option Form}

/-- Nothing is saved of a quoted text. -/
theorem OpensQuote.ends (h : OpensQuote back) : Ends after back [] back := by
  have hfault : ∀ {c quote : Char} {escapes : Bool} {form : Form} {tail : List Char},
      Unclosed quote escapes tail →
        first after c tail = quoted form quote escapes 0 tail →
        Ends after (c :: tail) [] (c :: tail) := by
    intro c quote escapes form tail hunclosed hfirst
    rw [quoted, quotedLength_eq_none_iff.2 hunclosed] at hfirst
    exact .fault hfirst rfl
  cases h with
  | single h => exact hfault h rfl
  | double h => exact hfault h rfl
  | backTick h => exact hfault h rfl

theorem OpensQuote.startsExponent (h : OpensQuote back) : Lexeme.startsExponent back = false := by
  cases h <;> rfl

theorem OpensQuote.ne_nil (h : OpensQuote back) : back ≠ [] := by
  cases h <;> exact List.cons_ne_nil _ _

theorem OpensComment.exists_tail (h : OpensComment back) : ∃ tail, back = '/' :: '*' :: tail := by
  obtain @⟨tail, -⟩ := h
  exact ⟨tail, rfl⟩

/-- The slash of a comment is saved. -/
theorem OpensComment.ends (h : OpensComment back) :
    Ends after back [(.operator .divide, ['/'])] back.tail := by
  obtain ⟨h⟩ := h
  exact .fault (first_of_comment (blockLength_eq_none_iff.2 h)) rfl

end

/-- The reading of a text comes to this place in it: what stands in front are whole lexemes. -/
def ComesTo (front back : List Char) : Prop := ∃ ls, front = chars ls ∧ Scans none ls back

/-- The reading comes to every place behind a blank, if there is no fault in front of it. -/
theorem comesTo_behind_blank {front back : List Char} {lexemes : List Lexeme}
    (hread : read front = .ok lexemes) (hlast : lexemes.getLast?.map Lexeme.form = some .blank)
    (hback : back.head? ≠ some '\n') : ComesTo front back := by
  obtain ⟨ls, rest, saved, unread, rfl, hscans, hends⟩ := exists_scans none front
  cases hends with
  | whole =>
    rw [List.append_nil, read_of_scans hscans] at hread
    obtain rfl := Except.ok.inj hread
    obtain ⟨before, l, rfl⟩ : ∃ before l, ls = before ++ [l] := by
      rcases List.eq_nil_or_concat ls with rfl | ⟨before, l, hls⟩
      · cases hlast
      · exact ⟨before, l, hls.trans List.concat_eq_append⟩
    have hform : l.1 = .blank := by
      have hforms := map_located (fun form _ => form) .origin (before ++ [l])
      rw [← List.getLast?_map, hforms] at hlast
      simpa using hlast
    exact ⟨_, List.append_nil _, scans_behind_blank hscans (.inl hform) hback⟩
  | fault found left =>
    rw [read_of_fault hscans found] at hread
    cases hread

end Lexeme

/-! ## The tokens around the fault -/

namespace TokenStream

open Lexeme (ComesTo Ends OpensQuote OpensComment)

/-- What stands in front of a fault is read as it would be alone. -/
theorem tokens_of_ends (d : Dialect) {front back : String} {saved : List (Form × List Char)}
    {unread : List Char} (hcomes : ComesTo front.toList back.toList)
    (hends : ∀ after, Ends after back.toList saved unread)
    (hstart : Lexeme.startsExponent back.toList = false) (hunread : unread ≠ []) :
    (ofText d (front ++ back)).tokens = (ofText d front).tokens.dropLast ++
      laid (ofText d front).tokens.dropLast.length front.length
        (piecesOf d saved ++ [(Terminal.invalid, unread), (Terminal.eof, [])]) := by
  obtain ⟨ls, hfront, hscans⟩ := hcomes
  have halone := hscans.alike (Lexeme.alike_of_part List.nil_prefix fun _ => hstart)
  have hlength : (Lexeme.chars ls).length = front.length := by rw [← hfront, String.length_toList]
  have hbefore : (ofText d front).tokens.dropLast = laid 0 0 (piecesOf d ls) := by
    rw [tokens_of_scans_whole d hfront halone, laid_append]
    exact List.dropLast_concat
  have htext : (front ++ back).toList = Lexeme.chars ls ++ back.toList := by
    rw [String.toList_append, hfront]
  rw [tokens_of_scans d htext hscans (hends _), hbefore, piecesOf_append, leftover, if_neg hunread,
    List.append_assoc, List.append_assoc, laid_append, length_laid, charsOf_piecesOf, hlength,
    Nat.zero_add, Nat.zero_add]
  rfl

/-- Where a quoted text opens that does not end, the text in front of it is read as it would be
alone, and what follows is one invalid token. Of a block comment that does not end, the slash is
read as a division first. -/
theorem tokens_unended (d : Dialect) (front back : String)
    (hcomes : ComesTo front.toList back.toList) :
    let before := (ofText d front).tokens.dropLast
    let stop := front.length + back.length
    (OpensQuote back.toList →
      (ofText d (front ++ back)).tokens = before ++
        [⟨.invalid, back, ⟨front.length, stop⟩, before.length⟩,
          ⟨.eof, "", ⟨stop, stop⟩, before.length + 1⟩]) ∧
    (OpensComment back.toList →
      (ofText d (front ++ back)).tokens = before ++
        [⟨.symbol .divide, "/", ⟨front.length, front.length + 1⟩, before.length⟩,
          ⟨.invalid, String.ofList back.toList.tail, ⟨front.length + 1, stop⟩, before.length + 1⟩,
          ⟨.eof, "", ⟨stop, stop⟩, before.length + 2⟩]) := by
  intro before stop
  constructor
  · intro h
    rw [tokens_of_ends d hcomes (fun _ => h.ends) h.startsExponent h.ne_nil]
    simp [laid, piecesOf, before, stop, String.length_toList]
  · intro h
    obtain ⟨tail, hback⟩ := h.exists_tail
    have hlength : back.length = tail.length + 2 := by
      rw [← String.length_toList, hback]
      rfl
    rw [tokens_of_ends d hcomes (fun _ => h.ends) (by rw [hback]; rfl) (by simp [hback])]
    simp [laid, piecesOf, Form.terminal, before, stop, hback, hlength]
    omega

theorem tokens_unended_behindBlank :
    ComesTo "SELECT ".toList "'it''s".toList ∧ OpensQuote "'it''s".toList ∧
      (ofText {} "SELECT 'it''s").tokens =
        [⟨.keyword .SELECT, "SELECT", ⟨0, 6⟩, 0⟩, ⟨.symbol .whitespace, " ", ⟨6, 7⟩, 1⟩,
          ⟨.invalid, "'it''s", ⟨7, 13⟩, 2⟩, ⟨.eof, "", ⟨13, 13⟩, 3⟩] := by
  have hcomes : ComesTo "SELECT ".toList "'it''s".toList :=
    Lexeme.comesTo_behind_blank rfl rfl (by decide)
  have hopens : OpensQuote "'it''s".toList :=
    .single (@Lexeme.quotedLength_eq_none_iff _ _ 1 _ |>.1 rfl)
  have hfront : (ofText {} "SELECT ").tokens =
      [⟨.keyword .SELECT, "SELECT", ⟨0, 6⟩, 0⟩, ⟨.symbol .whitespace, " ", ⟨6, 7⟩, 1⟩,
        ⟨.eof, "", ⟨7, 7⟩, 2⟩] := by decide +kernel
  have htokens := (tokens_unended {} _ _ hcomes).1 hopens
  rw [hfront] at htokens
  exact ⟨hcomes, hopens, htokens⟩

/-- The slash of a comment that does not end becomes a token of its own. -/
theorem tokens_of_unendedComment :
    ComesTo "SELECT 1 ".toList "/* abc".toList ∧ OpensComment "/* abc".toList ∧
      (ofText {} "SELECT 1 /* abc").tokens =
        (ofText {} "SELECT 1 ").tokens.dropLast ++
          [⟨.symbol .divide, "/", ⟨9, 10⟩, 4⟩, ⟨.invalid, "* abc", ⟨10, 15⟩, 5⟩,
            ⟨.eof, "", ⟨15, 15⟩, 6⟩] := by
  refine ⟨Lexeme.comesTo_behind_blank rfl rfl (by decide), .mk (by decide), ?_⟩
  decide +kernel

end TokenStream

end SqlCompletion
