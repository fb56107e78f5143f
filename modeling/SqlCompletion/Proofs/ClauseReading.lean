import Mathlib.Data.List.ModifyLast
import SqlCompletion.Proofs.Naming
import SqlCompletion.Proofs.TableCopies
import SqlCompletion.Proofs.Wording
set_option autoImplicit false

/-!
# A `FROM` clause is read on its own

The tables of a clause are not read off the tokens of the statement: the text of the clause is cut
out and read again. The two readings have the same tables but in one case, and `clauseTables_eq`
says for every text and every `FROM` in it what is read.

Nothing in front of `FROM` matters to the second reading. What follows the clause matters in one
place: a number behind a point is a name if the mark of an exponent touches it, and the mark can be
the first letter of `EXCEPT`, which is not a part of the clause (`TokenStream.severed`). Such a name
is read as a number, whole or decimal, and what was its schema is read as the table. Of the words
that end a clause no other one starts so (`boundary_of_mark`).

All other clauses have the same pieces in both readings (`TokenStream.EndsBefore.pieces_eq`). That
follows from how far a lexeme looks (`Scans.cut`): the last lexeme of a clause is the only one that
is read with another text behind it. Digits and points alone are never a name
(`number_of_isNumeral`), which tells what the cut leaves.

A clause reaches to the end of the text or to a token that ends it (`exists_clause`), and such a
token stands in front of the first fault of the text. A clause behind which a fault comes is read
again with the fault in it. The tables have their places in the clause here; the moves to the
statement and to the text are told where names are.
-/

namespace SqlCompletion

open Lexeme (Scans Ends chars formBehind)

/-! ## Lexemes of a part of the text -/

namespace Lexeme

/-- In front of a letter it does not matter what was read before. -/
theorem first_of_isAlpha {c : Char} (hc : c.isAlpha = true) (after : Option Form)
    (rest : List Char) : first after c rest = first none c rest := by
  have hdigit := isDigit_of_isAlpha hc
  have hpoint : (c == '.') = false := by
    rw [beq_eq_false_iff_ne]
    rintro rfl
    cases hc
  unfold first
  simp only [hdigit, hpoint, Bool.false_and, Bool.or_self, Bool.false_eq_true, if_false]

/-- The text has only digits and points. -/
def isNumeral (text : List Char) : Bool := text.all fun c => c.isDigit || c == '.'

section

variable {after : Option Form} {form : Form} {text : List Char}

theorem any_drop_runLength (p : Char → Bool) (cs : List Char) :
    (cs.drop (runLength p cs)).head?.any p = false := by
  induction cs with
  | nil => rfl
  | cons c cs ih =>
    unfold runLength at ih ⊢
    cases hc : p c with
    | true => rwa [List.takeWhile_cons_of_pos hc, List.length_cons, List.drop_succ_cons]
    | false => rwa [List.takeWhile_cons_of_neg (by simp [hc])]

theorem isNumeral_drop (h : isNumeral text = true) (n : Nat) : isNumeral (text.drop n) = true :=
  List.all_eq_true.2 fun c hc => List.all_eq_true.1 h c (List.mem_of_mem_drop hc)

theorem numberEnd_of_isNumeral (h : isNumeral text = true)
    (hdigit : text.head?.any Char.isDigit = false) (point : Bool) (mantissa : Nat) :
    numberEnd after point mantissa text = (numberForm point false, mantissa) := by
  cases text with
  | nil => rfl
  | cons c text =>
    obtain rfl : c = '.' := by
      have hc := List.all_eq_true.1 h c List.mem_cons_self
      rw [List.head?_cons, Option.any_some] at hdigit
      rwa [hdigit, Bool.false_or, beq_iff_eq] at hc
    rfl

theorem numberRest_of_isNumeral (h : isNumeral text = true) (whole : Nat) (point : Bool)
    (mark : Nat) :
    (numberRest after whole point mark text).1 ∈ [.operator .dot, .integer, .decimal] := by
  unfold numberRest
  dsimp only
  split
  · simp
  · rw [numberEnd_of_isNumeral (isNumeral_drop h _) (any_drop_runLength Char.isDigit text)]
    rcases numberForm_false point with hform | hform
    all_goals simp [hform]

/-- What is read of digits and points, up to the end of the text, is no name. -/
theorem number_of_isNumeral (h : isNumeral text = true) :
    (number after text).1 ∈ [.operator .dot, .integer, .decimal] := by
  rw [number_eq]
  have htail := isNumeral_drop h (runLength Char.isDigit text)
  generalize text.drop (runLength Char.isDigit text) = tail at htail ⊢
  unfold numberFrom
  split
  · rename_i hhex
    rw [Bool.and_eq_true, beq_iff_eq, beq_iff_eq] at hhex
    have hx := List.all_eq_true.1 htail 'x' (List.mem_of_head? hhex.2)
    cases hx
  · dsimp only
    by_cases hname : (decide ((text.take (runLength Char.isDigit text)).length = 0) &&
        tail.head? == some '.' && after.any Form.isName) = true
    · rw [if_pos hname]
      simp
    · rw [if_neg hname]
      exact numberRest_of_isNumeral (isNumeral_drop htail _) _ _ _

theorem first_of_isNumeral {c : Char} {v : List Char} {n : Nat} (h : isNumeral (c :: v) = true)
    (hfirst : first after c v = .ok (form, n)) : form ∈ [.operator .dot, .integer, .decimal] := by
  have hnumber : first after c v = .ok (number after (c :: v)) := by
    cases hdigit : c.isDigit with
    | true => exact first_of_digit hdigit after v
    | false =>
      obtain rfl : c = '.' := by
        have hc := List.all_eq_true.1 h c List.mem_cons_self
        rwa [hdigit, Bool.false_or, beq_iff_eq] at hc
      refine first_of_point (fun hname => ?_) after
      have hmem := List.mem_of_head? (beq_iff_eq.1 hname)
      have hmark := List.all_eq_true.1 h '_' (List.mem_cons_of_mem _ hmem)
      cases hmark
  rw [hnumber] at hfirst
  have hform : (number after (c :: v)).1 = form := congrArg Prod.fst (Except.ok.inj hfirst)
  rw [← hform]
  exact number_of_isNumeral h

end

section

variable {after : Option Form} {ls : List (Form × List Char)} {rest w : List Char}

/-- Digits and points at the end of the text are no name. -/
theorem Scans.terminal_ne_identifier {form : Form} {text : List Char}
    (h : Scans after (ls ++ [(form, text)]) []) (hnumeral : isNumeral text = true) (d : Dialect) :
    form.terminal d text ≠ .symbol .identifier := by
  obtain ⟨-, hlast⟩ := scans_append.1 h
  cases hlast with
  | @cons _ _ c v _ _ head _ =>
    rw [chars_nil, List.append_nil, List.append_nil] at head
    have hform := first_of_isNumeral hnumeral head
    simp only [List.mem_cons, List.not_mem_nil, or_false] at hform
    rcases hform with rfl | rfl | rfl
    all_goals
      intro hname
      cases hname

theorem ofWord?_of_isNumeral {text : List Char} (h : isNumeral text = true) :
    Keyword.ofWord? (String.ofList text) = none := by
  cases hword : Keyword.ofWord? (String.ofList text) with
  | none => rfl
  | some k =>
    cases text with
    | nil =>
      obtain ⟨s, hs, hsame⟩ := Keyword.exists_spelling_of_ofWord? hword
      obtain ⟨-, hname⟩ :=
        Keyword.toList_of_isSpelling (Keyword.isSpelling_spellings k (Keyword.mem_all k) s hs)
      rw [← hsame] at hname
      cases hname
    | cons c v =>
      have halpha := Keyword.isAlpha_of_ofWord? hword
      have hc := List.all_eq_true.1 h c List.mem_cons_self
      rw [isDigit_of_isAlpha halpha, Bool.false_or, beq_iff_eq] at hc
      rw [hc] at halpha
      cases halpha

theorem formBehind_none (ls : List (Form × List Char)) :
    formBehind none ls = ls.getLast?.map Prod.fst := by
  rcases List.eq_nil_or_concat ls with rfl | ⟨ms, l, rfl⟩
  · rfl
  · rw [List.concat_eq_append, formBehind_append, List.getLast?_concat]
    rfl

/-- Where the text ends behind some lexemes, they are read again, but for the last one where the
mark of an exponent gets lost. -/
theorem Scans.cut {form : Form} {text : List Char} (h : Scans after (ls ++ [(form, text)]) w) :
    ∃ form', Scans after (ls ++ [(form', text)]) [] ∧
      (form' = form ∨ Unmarked (formBehind after ls) w [] form form' ∧ isNumeral text = true) := by
  obtain ⟨hls, hlast⟩ := scans_append.1 h
  cases hlast with
  | @cons _ _ c v _ _ head _ =>
    obtain ⟨form', hfirst, hcases⟩ := first_cut head
    refine ⟨form', scans_append.2 ⟨hls.alike (alike_of_part ?_ ?_), .cons ?_ (.nil _ _)⟩, ?_⟩
    · simp
    · intro hnil
      cases hnil
    · simpa using hfirst
    · refine hcases.imp_right fun ⟨hunmarked, htext⟩ => ⟨hunmarked, ?_⟩
      exact List.all_eq_true.2 fun x hx => by simpa using htext x hx

end

end Lexeme

/-! ## Where a clause ends -/

/-- The terminal can end a clause: a closing parenthesis, or what starts another clause. -/
def Terminal.isBoundary (t : Terminal) : Bool :=
  t == .symbol .closePar || t.endsClause .invalid

theorem Terminal.isBoundary_of_endsClause {t previous : Terminal}
    (h : t.endsClause previous = true) : t.isBoundary = true := by
  unfold endsClause at h
  split at h
  all_goals first | rfl | cases h

namespace TokenStream

/-- A clause of `n` tokens ends with the tokens or in front of one that can end it. -/
def IsClause (n : Nat) (tokens : List Token) : Prop :=
  n ≤ tokens.length ∧ ∀ t, tokens[n]? = some t → t.kind.isBoundary = true

theorem isClause_zero {t : Token} (tokens : List Token) (h : t.kind.isBoundary = true) :
    IsClause 0 (t :: tokens) := by
  refine ⟨Nat.zero_le _, fun u hu => ?_⟩
  obtain rfl := Option.some.inj hu
  exact h

theorem IsClause.succ {n : Nat} {tokens : List Token} (h : IsClause n tokens) (t : Token) :
    IsClause (n + 1) (t :: tokens) :=
  ⟨Nat.succ_le_succ h.1, h.2⟩

theorem exists_isClause (count level : Nat) (previous : Terminal) (tokens : List Token) :
    ∃ n, clauseLength count level previous tokens = count + n ∧ IsClause n tokens := by
  -- One token more belongs to the clause.
  have hstep : ∀ {count m : Nat} {rest : List Token} (t : Token),
      (∃ n, m = count + 1 + n ∧ IsClause n rest) → ∃ n, m = count + n ∧ IsClause n (t :: rest) := by
    intro count m rest t ⟨n, hn, hclause⟩
    exact ⟨n + 1, by omega, hclause.succ t⟩
  fun_induction clauseLength count level previous tokens with
  | case1 => exact ⟨0, rfl, Nat.le_refl _, by simp⟩
  | case2 _ _ _ t _ _ ih => exact hstep t ih
  | case3 _ _ _ t _ _ _ ih => exact hstep t ih
  | case4 _ _ t rest _ _ hclose => exact ⟨0, rfl, isClause_zero rest (by rw [hclose]; rfl)⟩
  | case5 _ _ t _ _ _ _ _ ih => exact hstep t ih
  | case6 _ _ _ t rest _ _ _ hends =>
    exact ⟨0, rfl, isClause_zero rest (Terminal.isBoundary_of_endsClause hends.2.2)⟩
  | case7 _ _ _ t _ _ _ _ _ ih => exact hstep t ih

/-! ## The lexemes of a clause -/

theorem take_laid (index start k : Nat) (ps : List (Terminal × List Char)) :
    (laid index start ps).take k = laid index start (ps.take k) := by
  induction ps generalizing index start k with
  | nil => simp [laid]
  | cons p ps ih =>
    cases k with
    | zero => rfl
    | succ k => rw [laid, List.take_succ_cons, List.take_succ_cons, ih, laid]

theorem drop_laid (index start k : Nat) (ps : List (Terminal × List Char)) :
    (laid index start ps).drop k =
      laid (index + k) (start + (charsOf (ps.take k)).length) (ps.drop k) := by
  induction ps generalizing index start k with
  | nil => simp [laid]
  | cons p ps ih =>
    cases k with
    | zero => rfl
    | succ k =>
      rw [laid, List.drop_succ_cons, List.drop_succ_cons, List.take_succ_cons, ih, charsOf_cons,
        List.length_append]
      congr 1 <;> omega

theorem form_of_terminal_keyword {d : Dialect} {form : Form} {text : List Char} {k : Keyword}
    (h : form.terminal d text = .keyword k) :
    form = .word ∧ Keyword.ofWord? (String.ofList text) = some k := by
  cases form with
  | word =>
    refine ⟨rfl, ?_⟩
    simp only [Form.terminal, Form.wordTerminal] at h
    split at h
    · rename_i hnot
      split at h
      · cases h
      · obtain rfl := Terminal.keyword.inj h
        exact hnot
    · rename_i hword
      obtain rfl := Terminal.keyword.inj h
      exact hword
    · cases h
  | doubleQuoted =>
    simp only [Form.terminal] at h
    split at h <;> cases h
  | pipes =>
    simp only [Form.terminal] at h
    split at h <;> cases h
  | _ => cases h

/-- In front of a keyword it does not matter what was read before. -/
theorem scans_of_keyword {d : Dialect} {after : Option Form} {l : Form × List Char}
    {ls : List (Form × List Char)} {rest : List Char} {k : Keyword} (h : Scans after (l :: ls) rest)
    (hk : l.1.terminal d l.2 = .keyword k) : Scans none (l :: ls) rest := by
  obtain ⟨-, hword⟩ := form_of_terminal_keyword hk
  cases h with
  | cons head tail =>
    exact .cons (Lexeme.first_of_isAlpha (Keyword.isAlpha_of_ofWord? hword) after _ ▸ head) tail

/-- What follows the lexemes in front of the first fault: what is saved there, what is left unread
and the end. -/
def remains (d : Dialect) (saved : List (Form × List Char)) (unread : List Char) :
    List (Terminal × List Char) :=
  piecesOf d saved ++ leftover unread ++ [(Terminal.eof, [])]

section

variable {d : Dialect} {saved : List (Form × List Char)} {rest unread : List Char}
  {after : Option Form}

theorem mem_remains (hends : Ends after rest saved unread) {p : Terminal × List Char}
    (hp : p ∈ remains d saved unread) :
    p.1 ∈ [Terminal.symbol .identifier, .symbol .divide, .invalid, .eof] := by
  unfold remains at hp
  rcases List.mem_append.1 hp with hp | hp
  · rcases List.mem_append.1 hp with hp | hp
    · obtain ⟨l, hl, rfl⟩ := List.mem_map.1 hp
      cases hends with
      | whole => cases hl
      | @fault c _ _ fault _ _ =>
        unfold Lexeme.Fault.salvage at hl
        split at hl
        · cases hl
        · cases hl
        · obtain rfl := List.mem_singleton.1 hl
          have hname := Keyword.wordTerminal_of_ofWord?_none d (Keyword.ofWord?_singleton c)
          simp [Form.terminal, hname]
        · obtain rfl := List.mem_singleton.1 hl
          simp [Form.terminal]
    · unfold leftover at hp
      split at hp
      · cases hp
      · rw [List.mem_singleton.1 hp]
        simp
  · rw [List.mem_singleton.1 hp]
    simp

theorem not_boundary_of_mem_remains (hends : Ends after rest saved unread)
    {p : Terminal × List Char} (hp : p ∈ remains d saved unread) :
    p.1.isBoundary = false ∧ p.1 ≠ .keyword .FROM := by
  have hall : ∀ t ∈ [Terminal.symbol .identifier, .symbol .divide, .invalid, .eof],
      t.isBoundary = false ∧ t ≠ .keyword .FROM := by decide
  exact hall _ (mem_remains hends hp)

/-- A piece in front of the first fault is that of a lexeme. -/
theorem exists_lexeme {ls : List (Form × List Char)} {p : Terminal × List Char} {k : Nat}
    (hp : (piecesOf d ls ++ remains d saved unread)[k]? = some p)
    (hnot : p ∉ remains d saved unread) :
    ∃ hk : k < ls.length, p = (ls[k].1.terminal d ls[k].2, ls[k].2) := by
  rw [List.getElem?_append] at hp
  split at hp
  · rw [piecesOf, List.getElem?_map] at hp
    obtain ⟨l, hl, rfl⟩ := Option.map_eq_some_iff.1 hp
    obtain ⟨hk, rfl⟩ := List.getElem?_eq_some_iff.1 hl
    exact ⟨hk, rfl⟩
  · exact absurd (List.mem_of_getElem? hp) hnot

end

section

variable {d : Dialect} {text : String} {start : Token}

/-- The tokens from a `FROM` on are those of a text of its own. -/
theorem exists_from (ht : start ∈ (ofText d text).tokens) (hfrom : start.kind = .keyword .FROM) :
    ∃ l ls rest saved unread, l.1.terminal d l.2 = .keyword .FROM ∧
      Scans none (l :: ls) rest ∧ Ends (formBehind none (l :: ls)) rest saved unread ∧
      (ofText d text).tokens.drop start.index =
        laid start.index start.span.start (piecesOf d (l :: ls) ++ remains d saved unread) := by
  obtain ⟨ls, rest, saved, unread, htext, hscans, hends⟩ := Lexeme.exists_scans none text.toList
  have hpieces : pieces d text.toList = piecesOf d ls ++ remains d saved unread := by
    rw [htext, pieces_of_scans d hscans hends, piecesOf_append]
    simp [remains]
  obtain ⟨k, hk⟩ := List.getElem?_of_mem ht
  rw [tokens_ofText] at hk
  obtain ⟨p, hp, rfl⟩ := exists_of_getElem?_laid hk
  rw [hpieces] at hp
  obtain ⟨hkls, rfl⟩ := exists_lexeme hp fun hrest =>
    (not_boundary_of_mem_remains hends hrest).2 hfrom
  have hsplit : ls.take k ++ ls[k] :: ls.drop (k + 1) = ls := by
    rw [← List.drop_eq_getElem_cons hkls, List.take_append_drop]
  have hlaid : (piecesOf d ls ++ remains d saved unread).drop k =
      piecesOf d (ls[k] :: ls.drop (k + 1)) ++ remains d saved unread := by
    rw [← List.drop_eq_getElem_cons hkls, piecesOf, piecesOf, List.map_drop]
    exact List.drop_append_of_le_length (by simpa using Nat.le_of_lt hkls)
  rw [← hsplit, Lexeme.scans_append] at hscans
  rw [← hsplit, Lexeme.formBehind_append] at hends
  refine ⟨ls[k], ls.drop (k + 1), rest, saved, unread, hfrom, scans_of_keyword hscans.2 hfrom,
    hends, ?_⟩
  rw [tokens_ofText, drop_laid, Nat.zero_add, Nat.zero_add, hpieces, hlaid]

end

/-! ## Where the clause is cut off -/

/-- The clause at an index ends in a number that is a name, as it stands behind a point and the mark
of an exponent touches it. The mark is not a part of the clause: `EXCEPT` starts with it. -/
def severed (s : TokenStream) (index : Nat) : Bool :=
  let clause := s.clauseTokens index
  clause.dropLast.getLast?.any (·.kind == .symbol .dot) &&
    clause.getLast?.any
      (fun t => t.kind == .symbol .identifier && Lexeme.isNumeral t.text.toList) &&
    (s.get? (index + clause.length)).any (·.kind == .keyword .EXCEPT)

theorem severed_of_laid {s : TokenStream} {index place : Nat} {ls : List (Form × List Char)}
    {d : Dialect} {form : Form} {name : List Char}
    (h : s.clauseTokens index = laid index place (piecesOf d (ls ++ [(form, name)]))) :
    s.severed index = (ls.getLast?.any (fun l => l.1.terminal d l.2 == .symbol .dot) &&
      (form.terminal d name == .symbol .identifier && Lexeme.isNumeral name) &&
      (s.get? (index + (ls.length + 1))).any (·.kind == .keyword .EXCEPT)) := by
  have hpoint : (laid index place (piecesOf d ls)).getLast?.any (·.kind == .symbol .dot) =
      ls.getLast?.any (fun l => l.1.terminal d l.2 == .symbol .dot) := by
    rw [List.getLast?_eq_getElem?, List.getLast?_eq_getElem?, getElem?_laid, length_laid,
      length_piecesOf, piecesOf, List.getElem?_map]
    cases ls[ls.length - 1]? with
    | none => rfl
    | some l => rfl
  unfold severed
  dsimp only
  rw [h, length_laid, length_piecesOf, List.length_append, List.length_singleton, piecesOf_append,
    laid_append]
  simp only [piecesOf, List.map_cons, List.map_nil, laid, List.dropLast_concat,
    List.getLast?_concat, Option.any_some, String.toList_ofList]
  rw [← hpoint, piecesOf]

/-- Of the keywords that can end a clause, one starts with the mark of an exponent. -/
theorem boundary_of_mark : ∀ k ∈ Keyword.all, (Terminal.keyword k).isBoundary = true →
    ∀ s ∈ k.spellings, s.toList.head? = some 'E' → k = .EXCEPT := by
  decide +kernel

theorem terminal_of_mark {d : Dialect} {after : Option Form} {b : Form × List Char}
    {ls : List (Form × List Char)} {rest : List Char} (hscans : Scans after (b :: ls) rest)
    (hmark : Lexeme.startsExponent (chars (b :: ls) ++ rest) = true)
    (hboundary : (b.1.terminal d b.2).isBoundary = true) :
    b.1.terminal d b.2 = .keyword .EXCEPT := by
  cases hscans with
  | @cons _ form c v _ _ head _ =>
    have hc : c = 'e' ∨ c = 'E' := by
      rw [Lexeme.startsExponent_eq] at hmark
      simpa using hmark
    obtain rfl : form = .word := by
      rcases hc with rfl | rfl
      all_goals exact (congrArg Prod.fst (Except.ok.inj head)).symm
    cases hword : Keyword.ofWord? (String.ofList (c :: v)) with
    | none =>
      have hname := Keyword.wordTerminal_of_ofWord?_none d hword
      simp only [Form.terminal, hname] at hboundary
      cases hboundary
    | some k =>
      obtain ⟨s, hs, hupper⟩ := Keyword.exists_spelling_of_ofWord? hword
      have hread := Keyword.wordTerminal_of_ofWord? d hword
      simp only [Form.terminal, hread, Keyword.reading] at hboundary ⊢
      split at hboundary
      · cases hboundary
      · rename_i hnot
        rw [if_neg hnot]
        refine congrArg _ (boundary_of_mark k (Keyword.mem_all k) hboundary s hs ?_)
        rw [← hupper]
        rcases hc with rfl | rfl
        all_goals rfl

section

variable {d : Dialect} {text : String} {start : Token}

/-- A token that ends a clause stands behind `FROM`, in front of the first fault. -/
theorem exists_boundary {l : Form × List Char} {ls saved : List (Form × List Char)}
    {rest unread : List Char} {after : Option Form} {index place n : Nat} {u : Token}
    (hl : l.1.terminal d l.2 = .keyword .FROM) (hends : Ends after rest saved unread)
    (hu : (laid index place (piecesOf d (l :: ls) ++ remains d saved unread))[n]? = some u)
    (hboundary : u.kind.isBoundary = true) :
    ∃ ms last b behind, l :: ls = ms ++ [last] ++ b :: behind ∧ n = ms.length + 1 ∧
      u.kind = b.1.terminal d b.2 := by
  rw [getElem?_laid] at hu
  obtain ⟨p, hp, rfl⟩ := Option.map_eq_some_iff.1 hu
  obtain ⟨hn, rfl⟩ := exists_lexeme hp fun hrest => by
    rw [(not_boundary_of_mem_remains hends hrest).1] at hboundary
    cases hboundary
  cases n with
  | zero =>
    have hfrom : (Terminal.keyword .FROM).isBoundary = true := hl ▸ hboundary
    cases hfrom
  | succ n =>
    have hlast : n < (l :: ls).length := Nat.lt_of_succ_lt hn
    refine ⟨(l :: ls).take n, (l :: ls)[n], (l :: ls)[n + 1], (l :: ls).drop (n + 2), ?_, ?_, rfl⟩
    · rw [List.take_concat_get', ← List.drop_eq_getElem_cons hn, List.take_append_drop]
    · rw [List.length_take_of_le (Nat.le_of_lt hlast)]

/-- The clause that starts at a token is read of the lexemes `ls` and `last`, and the lexeme `b`
ends it. -/
structure EndsBefore (d : Dialect) (s : TokenStream) (start : Token) (ls : List (Form × List Char))
    (last b : Form × List Char) (behind : List (Form × List Char)) (rest : List Char) : Prop where
  scans : Scans none (ls ++ [last] ++ b :: behind) rest
  clause : s.clauseTokens start.index =
    laid start.index start.span.start (piecesOf d (ls ++ [last]))
  next : ∃ u, s.get? (start.index + (ls.length + 1)) = some u ∧ u.kind = b.1.terminal d b.2
  boundary : (b.1.terminal d b.2).isBoundary = true

/-- A clause reaches to the end of the text, which is then read again as it is, or to a lexeme that
ends it. -/
theorem exists_clause (ht : start ∈ (ofText d text).tokens) (hfrom : start.kind = .keyword .FROM) :
    (∃ ps, (ofText d text).clauseTokens start.index = laid start.index start.span.start ps ∧
      (ofText d text).get? (start.index + ps.length) = none ∧ pieces d (charsOf ps) = ps) ∨
    ∃ ls last b behind rest, EndsBefore d (ofText d text) start ls last b behind rest := by
  obtain ⟨l, ls, rest, saved, unread, hl, hscans, hends, hdrop⟩ := exists_from ht hfrom
  obtain ⟨n, hn, hle, hbound⟩ := exists_isClause 0 0 .invalid
    ((ofText d text).tokens.drop start.index)
  have hclause : (ofText d text).clauseTokens start.index =
      ((ofText d text).tokens.drop start.index).take n := by
    rw [clauseTokens, hn, Nat.zero_add]
  have hget : (ofText d text).get? (start.index + n) =
      ((ofText d text).tokens.drop start.index)[n]? := by
    rw [List.getElem?_drop, get?]
  rw [hdrop, take_laid] at hclause
  rw [hdrop] at hget hbound hle
  cases hu : (laid start.index start.span.start
      (piecesOf d (l :: ls) ++ remains d saved unread))[n]? with
  | none =>
    rw [List.getElem?_eq_none_iff, length_laid] at hu
    rw [length_laid] at hle
    obtain rfl := Nat.le_antisymm hle hu
    rw [List.take_length] at hclause
    refine .inl ⟨_, hclause, hget.trans ?_, ?_⟩
    · rw [List.getElem?_eq_none_iff, length_laid]
    · have hwhole := pieces_of_scans d hscans hends
      have hchars : charsOf (remains d saved unread) = rest := by
        simp [remains, hends.eq_append]
      rw [charsOf_append, charsOf_piecesOf, hchars, hwhole, piecesOf_append, remains]
      simp only [List.append_assoc]
  | some u =>
    have hboundary := hbound u hu
    obtain ⟨ms, last, b, behind, hsplit, rfl, hkind⟩ := exists_boundary hl hends hu hboundary
    have hlength : (piecesOf d (ms ++ [last])).length = ms.length + 1 := by simp
    refine .inr ⟨ms, last, b, behind, rest, ?_, ?_, ⟨u, hget.trans hu, hkind⟩, hkind ▸ hboundary⟩
    · rwa [hsplit] at hscans
    · rw [hclause, hsplit, piecesOf_append d (ms ++ [last]), List.append_assoc, ← hlength,
        List.take_left]

/-! ## A clause that is read again -/

section

variable {s : TokenStream} {ls behind : List (Form × List Char)} {b : Form × List Char}
  {form form' : Form} {name rest : List Char}

/-- The mark of an exponent that gets lost is the first letter of `EXCEPT`. -/
theorem EndsBefore.severed_of_unmarked (h : EndsBefore d s start ls (form, name) b behind rest)
    (hunmarked : Lexeme.Unmarked (formBehind none ls) (chars (b :: behind) ++ rest) [] form form')
    (hnumeral : Lexeme.isNumeral name = true) : s.severed start.index = true := by
  obtain ⟨u, hu, hkind⟩ := h.next
  have hexcept := terminal_of_mark (Lexeme.scans_append.1 h.scans).2 hunmarked.mark h.boundary
  have hpoint := hunmarked.point
  rw [Lexeme.formBehind_none] at hpoint
  obtain ⟨⟨_, point⟩, hlast, rfl⟩ := Option.map_eq_some_iff.1 hpoint
  have hword := Keyword.wordTerminal_of_ofWord?_none d (Lexeme.ofWord?_of_isNumeral hnumeral)
  rw [hexcept] at hkind
  rw [severed_of_laid h.clause, hlast, hunmarked.name, hu]
  simp [Form.terminal, hword, hnumeral, hkind]

/-- The pieces of a clause that ends in front of a lexeme, read again: its own ones and the end, but
for a number that the mark of an exponent is cut off from. -/
theorem EndsBefore.pieces_eq (h : EndsBefore d s start ls (form, name) b behind rest) :
    ∃ form', pieces d (charsOf (piecesOf d (ls ++ [(form, name)]))) =
        piecesOf d (ls ++ [(form', name)]) ++ [(Terminal.eof, [])] ∧
      (s.severed start.index = false → form' = form) ∧
      (s.severed start.index = true →
        ∃ number ∈ [Symbol.intNumber, .decimalNumber], form'.terminal d name = .symbol number) := by
  obtain ⟨form', hcut, hcases⟩ := (Lexeme.scans_append.1 h.scans).1.cut
  refine ⟨form', ?_, ?_⟩
  · have hread := pieces_of_scans d hcut .whole
    rw [charsOf_piecesOf]
    simpa [leftover] using hread
  · rcases hcases with rfl | ⟨hunmarked, hnumeral⟩
    · refine ⟨fun _ => rfl, fun hsevered => ?_⟩
      rw [severed_of_laid h.clause] at hsevered
      simp only [Bool.and_eq_true, beq_iff_eq] at hsevered
      obtain ⟨⟨-, hname, hnumeral⟩, -⟩ := hsevered
      exact absurd hname (hcut.terminal_ne_identifier hnumeral d)
    · have hsevered := h.severed_of_unmarked hunmarked hnumeral
      refine ⟨fun hnot => ?_, fun _ => ?_⟩
      · rw [hsevered] at hnot
        cases hnot
      · rcases hunmarked.number with rfl | rfl
        · exact ⟨.intNumber, by simp, rfl⟩
        · exact ⟨.decimalNumber, by simp, rfl⟩

end

end

end TokenStream

/-! ## The tables of a clause -/

open TokenStream (laid pieces charsOf piecesOf)

/-- The tokens of some pieces, with the end behind them or not, are copies of those at another
place. -/
theorem FromClause.copies_laid (ps : List (Terminal × List Char)) {qs : List (Terminal × List Char)}
    (hqs : qs = [] ∨ qs = [(Terminal.eof, [])]) (delta i j place : Nat) :
    Copies delta ((laid i place (ps ++ qs)).filter fun t => !t.isHidden)
      ((laid j (place + delta) ps).filter fun t => !t.isHidden) := by
  induction ps generalizing i j place with
  | nil =>
    rcases hqs with rfl | rfl
    · exact .nil
    · exact .ends rfl rfl
  | cons p ps ih =>
    obtain ⟨kind, cs⟩ := p
    rw [List.cons_append, laid, laid, List.filter_cons, List.filter_cons, Nat.add_right_comm]
    -- Whether a token is hidden is up to its terminal.
    have hhidden : Token.isHidden ⟨kind, String.ofList cs,
        ⟨place + delta, place + cs.length + delta⟩, j⟩ =
          Token.isHidden ⟨kind, String.ofList cs, ⟨place, place + cs.length⟩, i⟩ := rfl
    rw [hhidden]
    split
    · exact .cons rfl rfl rfl (ih _ _ _)
    · exact ih _ _ _

theorem TokenStream.modifyLast_laid (d : Dialect) (index place : Nat) (ls : List (Form × List Char))
    (form form' : Form) (text : List Char) :
    (laid index place (piecesOf d (ls ++ [(form, text)]))).modifyLast
        (fun t => { t with kind := form'.terminal d text }) =
      laid index place (piecesOf d (ls ++ [(form', text)])) := by
  rw [piecesOf_append, piecesOf_append, laid_append, laid_append]
  exact List.modifyLast_concat ..

namespace Scope

section

variable {d : Dialect} {s : TokenStream} {start : Token} {ps qs os : List (Terminal × List Char)}

/-- The tables of a clause by its pieces and the pieces that are read of its text. -/
theorem clauseTables_of_pieces
    (hclause : s.clauseTokens start.index = laid start.index start.span.start ps)
    (hpieces : pieces d (charsOf ps) = os ++ qs) (hqs : qs = [] ∨ qs = [(Terminal.eof, [])]) :
    clauseTables (.mysql d) s start =
      FromClause.tables ((laid start.index start.span.start os).filter fun t => !t.isHidden) := by
  have htext : s.clauseText start.index = String.ofList (charsOf ps) := by
    rw [TokenStream.clauseText, hclause, TokenStream.join_text_laid]
  have hcopies := FromClause.copies_laid os hqs start.span.start 0 start.index 0
  rw [Nat.zero_add, ← hpieces] at hcopies
  rw [FromClause.tables_of_copies hcopies, clauseTables, htext, Parser.references_fromClause,
    TokenStream.visible, TokenStream.tokens_ofText, String.toList_ofList]

end

/-- A clause is read again as it was read, if the mark of an exponent is not cut off from a name at
its end. If it is, the name is read as a number. -/
theorem clauseTables_eq {d : Dialect} {text : String} {start : Token}
    (ht : start ∈ (TokenStream.ofText d text).tokens) (hfrom : start.kind = .keyword .FROM) :
    ((TokenStream.ofText d text).severed start.index = false →
      clauseTables (.mysql d) (.ofText d text) start =
        FromClause.tables (((TokenStream.ofText d text).clauseTokens start.index).filter
          fun t => !t.isHidden)) ∧
    ((TokenStream.ofText d text).severed start.index = true →
      ∃ number ∈ [Symbol.intNumber, .decimalNumber],
        clauseTables (.mysql d) (.ofText d text) start =
          FromClause.tables ((((TokenStream.ofText d text).clauseTokens start.index).modifyLast
            fun t => { t with kind := .symbol number }).filter fun t => !t.isHidden)) := by
  obtain ⟨ps, hclause, hend, hpieces⟩ | ⟨ls, ⟨form, name⟩, b, behind, rest, hends⟩ :=
    TokenStream.exists_clause ht hfrom
  · refine ⟨fun _ => ?_, fun hsevered => ?_⟩
    · rw [hclause]
      exact clauseTables_of_pieces hclause (hpieces.trans (List.append_nil ps).symm) (.inl rfl)
    · simp [TokenStream.severed, hclause, hend] at hsevered
  · obtain ⟨form', hpieces, hsame, hnumber⟩ := hends.pieces_eq
    have htables := clauseTables_of_pieces hends.clause hpieces (.inr rfl)
    refine ⟨fun hnot => ?_, fun hsevered => ?_⟩
    · rw [htables, hsame hnot, hends.clause]
    · obtain ⟨number, hmem, hkind⟩ := hnumber hsevered
      refine ⟨number, hmem, ?_⟩
      rw [htables, hends.clause, ← hkind, TokenStream.modifyLast_laid]

/-- The exponent of a name behind a point is kept, though `EXCEPT` touches it; the mark alone is
not. -/
theorem clauseTables_eq_exponent :
    (let s := TokenStream.ofText {} "SELECT 1 FROM db.1e5EXCEPT SELECT 2"
      let start : Token := ⟨.keyword .FROM, "FROM", ⟨9, 13⟩, 4⟩
      start ∈ s.tokens ∧ s.severed 4 = false ∧
        clauseTables (.mysql {}) s start =
          FromClause.tables ((s.clauseTokens 4).filter fun t => !t.isHidden) ∧
        clauseTables (.mysql {}) s start =
          [⟨.table, some "1e5", ⟨17, 20⟩, none, some ⟨"db", ⟨14, 16⟩⟩⟩]) ∧
    (let s := TokenStream.ofText {} "FROM db.1EXCEPT"
      let start : Token := ⟨.keyword .FROM, "FROM", ⟨0, 4⟩, 0⟩
      start ∈ s.tokens ∧ s.severed 0 = true ∧
        ∃ number ∈ [Symbol.intNumber, .decimalNumber], clauseTables (.mysql {}) s start =
          FromClause.tables (((s.clauseTokens 0).modifyLast
            fun t => { t with kind := .symbol number }).filter fun t => !t.isHidden)) := by
  have hkept : ⟨.keyword .FROM, "FROM", ⟨9, 13⟩, 4⟩ ∈
      (TokenStream.ofText {} "SELECT 1 FROM db.1e5EXCEPT SELECT 2").tokens := by decide +kernel
  have hnot : (TokenStream.ofText {} "SELECT 1 FROM db.1e5EXCEPT SELECT 2").severed 4 = false := by
    decide +kernel
  have hlost : ⟨.keyword .FROM, "FROM", ⟨0, 4⟩, 0⟩ ∈
      (TokenStream.ofText {} "FROM db.1EXCEPT").tokens := by decide +kernel
  have hsevered : (TokenStream.ofText {} "FROM db.1EXCEPT").severed 0 = true := by decide +kernel
  constructor
  · exact ⟨hkept, hnot, (clauseTables_eq hkept rfl).1 hnot, by decide +kernel⟩
  · exact ⟨hlost, hsevered, (clauseTables_eq hlost rfl).2 hsevered⟩

/-- Of the number `5`, the mark of an exponent is cut off with `EXCEPT`: what was the schema of the
table is read as the table. -/
theorem clauseTables_severed_number :
    let s := TokenStream.ofText {} "SELECT  FROM t.5EXCEPT SELECT 1"
    let start : Token := ⟨.keyword .FROM, "FROM", ⟨8, 12⟩, 3⟩
    start ∈ s.tokens ∧
      FromClause.tables ((s.clauseTokens 3).filter fun t => !t.isHidden) =
        [⟨.table, some "5", ⟨15, 16⟩, none, some ⟨"t", ⟨13, 14⟩⟩⟩] ∧
      clauseTables (.mysql {}) s start = [⟨.table, some "t", ⟨13, 14⟩, none, none⟩] := by
  decide +kernel

end Scope

end SqlCompletion
