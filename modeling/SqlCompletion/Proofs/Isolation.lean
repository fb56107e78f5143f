import SqlCompletion.Engine.Basic
import SqlCompletion.Proofs.Recovery
import SqlCompletion.Proofs.Tiling
set_option autoImplicit false

/-!
# A statement is completed on its own

A request is served for one statement of the text, which is cut out and read a second time. Nothing
of the other statements comes through. The tokens of the statement are those that the whole text has
there, moved to its start (`Statement.Isolated`), and the suggestions are those for the statement
alone, with the caret counted from its start (`complete_isolated`). This holds for every text and
every caret up to its end, and whatever the collector is. A text that is too large is an error and
has no suggestions.

The statement at the caret lies between two semicolons, or an end of the text stands for one
(`exists_enclosed`). A semicolon among the pieces of a text is always a lexeme in front of the first
fault (`split_at_semicolon`), so that its text can be told by the lexemes in front of it and behind
it. What is read behind a semicolon is what is read at the start of a text, and what is read in
front of one does not depend on what follows (`pieces_statement`).

Where the references to tables stand does not matter to the suggestions (`items_analyzeStatement`);
it is what the whole text has in the place of the statement that they are moved by.

A semicolon in a quoted text or in a comment is none of those meant here: it is not a lexeme. The
end of the text is a token of every text and is left out where tokens are compared.
-/

namespace SqlCompletion

open Lexeme (Scans Ends chars formBehind located)

/-! ## Pieces of a text by its lexemes -/

namespace TokenStream

/-- The pieces of some lexemes. -/
def piecesOf (d : Dialect) (ls : List (Form × List Char)) : List (Terminal × List Char) :=
  ls.map fun l => (l.1.terminal d l.2, l.2)

/-- What is left unread is one piece. -/
def leftover (unread : List Char) : List (Terminal × List Char) :=
  if unread = [] then [] else [(Terminal.invalid, unread)]

theorem piecesOf_append (d : Dialect) (ls ms : List (Form × List Char)) :
    piecesOf d (ls ++ ms) = piecesOf d ls ++ piecesOf d ms := List.map_append

@[simp] theorem length_piecesOf (d : Dialect) (ls : List (Form × List Char)) :
    (piecesOf d ls).length = ls.length := List.length_map _

@[simp] theorem charsOf_piecesOf (d : Dialect) (ls : List (Form × List Char)) :
    charsOf (piecesOf d ls) = chars ls := by
  induction ls with
  | nil => rfl
  | cons l ls ih => exact congrArg (l.2 ++ ·) ih

@[simp] theorem charsOf_leftover (unread : List Char) : charsOf (leftover unread) = unread := by
  unfold leftover
  split
  · rename_i hnil
    rw [hnil]
    rfl
  · simp

section

variable {ls saved : List (Form × List Char)} {rest unread : List Char}

/-- The pieces of a text: its lexemes in front of the first fault, what is saved there, what is left
unread, and the end. -/
theorem pieces_of_scans (d : Dialect) (h : Scans none ls rest)
    (hends : Ends (formBehind none ls) rest saved unread) :
    pieces d (chars ls ++ rest) =
      piecesOf d (ls ++ saved) ++ leftover unread ++ [(Terminal.eof, [])] := by
  have htext : chars ls ++ rest = chars (ls ++ saved) ++ unread := by
    rw [hends.eq_append, Lexeme.chars_append, List.append_assoc]
  have hlexemes := Lexeme.map_located (fun form text => (form.terminal d text, text)) .origin
    (ls ++ saved)
  unfold pieces
  rw [Lexeme.readable_of_scans h hends, htext, List.length_append, List.drop_left]
  unfold leftover
  refine congrArg (· ++ _) (congr (congrArg _ hlexemes) ?_)
  cases unread with
  | nil => simp
  | cons c unread => simp

/-- The tokens of a text are these pieces, laid one behind the other. -/
theorem tokens_of_scans (d : Dialect) {text : String} (htext : text.toList = chars ls ++ rest)
    (h : Scans none ls rest) (hends : Ends (formBehind none ls) rest saved unread) :
    (ofText d text).tokens =
      laid 0 0 (piecesOf d (ls ++ saved) ++ leftover unread ++ [(Terminal.eof, [])]) := by
  rw [tokens_ofText, htext, pieces_of_scans d h hends]

/-- A text without a fault is its lexemes and the end. -/
theorem tokens_of_scans_whole (d : Dialect) {text : String} (htext : text.toList = chars ls)
    (h : Scans none ls []) :
    (ofText d text).tokens = laid 0 0 (piecesOf d ls ++ [(Terminal.eof, [])]) := by
  rw [tokens_of_scans d (htext.trans (List.append_nil _).symm) h .whole, List.append_nil]
  exact congrArg (fun ps => laid 0 0 (ps ++ [(Terminal.eof, [])])) (List.append_nil _)

end

/-! ## The statement at the caret -/

/-- The pieces of a text fall into those in front of a statement, those of the statement and those
behind it: semicolons lie around the statement, and none inside of it. -/
structure Encloses (before inside behind : List (Terminal × List Char)) : Prop where
  before : before = [] ∨ ∃ more cs, before = more ++ [(.symbol .semicolon, cs)]
  inside : ∀ p ∈ inside, p.1 ≠ .symbol .semicolon
  behind : behind = [] ∨ ∃ cs more, behind = (.symbol .semicolon, cs) :: more

/-- The visible tokens of some pieces and of the end behind them. -/
def laidVisible (index start : Nat) (ps : List (Terminal × List Char)) : List Token :=
  (laid index start (ps ++ [(Terminal.eof, [])])).filter fun t => !t.isHidden

theorem spansFrom_end (index start pos stop : Nat) :
    Statement.spansFrom start stop (laidVisible index pos []) = [⟨start, stop⟩] := rfl

theorem spansFrom_semicolon (index start pos stop : Nat) (cs : List Char)
    (ps : List (Terminal × List Char)) :
    Statement.spansFrom start stop (laidVisible index pos ((.symbol .semicolon, cs) :: ps)) =
      ⟨start, pos⟩ :: Statement.spansFrom (pos + cs.length) stop
        (laidVisible (index + 1) (pos + cs.length) ps) := rfl

theorem spansFrom_other {p : Terminal × List Char} (hp : p.1 ≠ .symbol .semicolon)
    (index start pos stop : Nat) (ps : List (Terminal × List Char)) :
    Statement.spansFrom start stop (laidVisible index pos (p :: ps)) =
      Statement.spansFrom start stop (laidVisible (index + 1) (pos + p.2.length) ps) := by
  unfold laidVisible
  rw [List.cons_append, laid, List.filter_cons]
  split
  · rw [Statement.spansFrom, if_neg hp]
  · rfl

/-- No statement starts in front of where the spans are counted from. -/
theorem le_of_mem_spansFrom {span : Span} {start stop pos : Nat} (hle : start ≤ pos) (index : Nat)
    (ps : List (Terminal × List Char))
    (h : span ∈ Statement.spansFrom start stop (laidVisible index pos ps)) :
    start ≤ span.start := by
  induction ps generalizing start pos index with
  | nil =>
    rw [spansFrom_end, List.mem_singleton] at h
    subst h
    exact Nat.le_refl _
  | cons p ps ih =>
    by_cases hp : p.1 = .symbol .semicolon
    · obtain ⟨kind, cs⟩ := p
      obtain rfl : kind = .symbol .semicolon := hp
      rw [spansFrom_semicolon] at h
      rcases List.mem_cons.1 h with rfl | h
      · exact Nat.le_refl _
      · have := ih (Nat.le_refl _) _ h
        omega
    · rw [spansFrom_other hp] at h
      exact ih (by omega) _ h

/-- Among the statements from `before` on, the one at the caret lies between two semicolons. Here
`current` are the pieces of the first of these statements that are passed already. -/
theorem exists_enclosed (offset : Nat) (ps : List (Terminal × List Char))
    (hsemicolon : ∀ p ∈ ps, p.1 = .symbol .semicolon → p.2.length = 1)
    (before current : List (Terminal × List Char)) (index : Nat)
    (hbefore : Encloses before current [])
    (hstart : (charsOf before).length ≤ offset)
    (hstop : offset ≤ (charsOf (before ++ current ++ ps)).length) :
    ∃ front inside behind, before ++ current ++ ps = front ++ inside ++ behind ∧
      Encloses front inside behind ∧ (charsOf front).length ≤ offset ∧
      offset ≤ (charsOf (front ++ inside)).length ∧
      (Statement.spansFrom (charsOf before).length (charsOf (before ++ current ++ ps)).length
        (laidVisible index (charsOf (before ++ current)).length ps)).reverse.find?
          (fun span => decide (span.start ≤ offset)) =
        some ⟨(charsOf front).length, (charsOf (front ++ inside)).length⟩ := by
  induction ps generalizing before current index with
  | nil =>
    rw [List.append_nil] at hstop
    refine ⟨before, current, [], rfl, hbefore, hstart, hstop, ?_⟩
    rw [spansFrom_end, List.append_nil]
    simp [hstart]
  | cons p ps ih =>
    have hrest : ∀ q ∈ ps, q.1 = .symbol .semicolon → q.2.length = 1 :=
      fun q hq => hsemicolon q (List.mem_cons_of_mem p hq)
    by_cases hp : p.1 = .symbol .semicolon
    · obtain ⟨kind, cs⟩ := p
      obtain rfl : kind = .symbol .semicolon := hp
      have hcs : cs.length = 1 := hsemicolon _ List.mem_cons_self rfl
      rw [spansFrom_semicolon, List.reverse_cons, List.find?_append]
      rcases Nat.lt_or_ge offset ((charsOf (before ++ current)).length + cs.length) with hlt | hge
      · -- The next statement starts behind the caret.
        have hnone : (Statement.spansFrom ((charsOf (before ++ current)).length + cs.length)
            (charsOf (before ++ current ++ (.symbol .semicolon, cs) :: ps)).length
            (laidVisible (index + 1) ((charsOf (before ++ current)).length + cs.length)
              ps)).reverse.find? (fun span => decide (span.start ≤ offset)) = none := by
          rw [List.find?_eq_none]
          intro span hspan
          have hle := le_of_mem_spansFrom (Nat.le_refl _) _ _ (List.mem_reverse.1 hspan)
          simp only [decide_eq_true_eq]
          omega
        refine ⟨before, current, _, rfl, ⟨hbefore.before, hbefore.inside, .inr ⟨cs, ps, rfl⟩⟩,
          hstart, by omega, ?_⟩
        rw [hnone, Option.none_or]
        simp [hstart]
      · have hnext : Encloses (before ++ current ++ [(.symbol .semicolon, cs)]) [] [] :=
          ⟨.inr ⟨before ++ current, cs, rfl⟩, by simp, .inl rfl⟩
        have hpos : (charsOf (before ++ current)).length + cs.length =
            (charsOf (before ++ current ++ [(.symbol .semicolon, cs)])).length := by
          simp [Nat.add_assoc]
        have hsame : before ++ current ++ (.symbol .semicolon, cs) :: ps =
            before ++ current ++ [(.symbol .semicolon, cs)] ++ [] ++ ps := by simp
        rw [hpos] at hge ⊢
        rw [hsame] at hstop ⊢
        obtain ⟨front, inside, behind, hsplit, hencloses, hfront, hinside, hfind⟩ :=
          ih hrest _ [] (index + 1) hnext hge hstop
        refine ⟨front, inside, behind, hsplit, hencloses, hfront, hinside, ?_⟩
        rw [List.append_nil] at hfind ⊢
        rw [hfind, Option.some_or]
    · have hnext : Encloses before (current ++ [p]) [] := by
        refine ⟨hbefore.before, fun q hq => ?_, .inl rfl⟩
        rcases List.mem_append.1 hq with hq | hq
        · exact hbefore.inside q hq
        · rwa [List.mem_singleton.1 hq]
      have hsame : before ++ current ++ p :: ps = before ++ (current ++ [p]) ++ ps := by simp
      have hpos : (charsOf (before ++ current)).length + p.2.length =
          (charsOf (before ++ (current ++ [p]))).length := by simp [Nat.add_assoc]
      rw [hsame] at hstop ⊢
      rw [spansFrom_other hp, hpos]
      exact ih hrest before (current ++ [p]) (index + 1) hnext hstart hstop

/-! ## The statement by itself -/

/-- The symbols that forms other than operators are read as. -/
def symbolForms : List (Form × Symbol) :=
  [(.blank, .whitespace), (.comment, .comment), (.word, .not2), (.word, .identifier),
   (.backTicked, .backTickQuotedId), (.singleQuoted, .singleQuotedText),
   (.doubleQuoted, .identifier), (.doubleQuoted, .doubleQuotedText), (.national, .ncharText),
   (.hexadecimal, .hexNumber), (.binary, .binNumber), (.integer, .intNumber),
   (.decimal, .decimalNumber), (.float, .floatNumber), (.placeholder, .identifier),
   (.pipes, .concatPipes), (.pipes, .logicalOr), (.unknown, .invalid)]

theorem form_of_terminal {d : Dialect} {form : Form} {text : List Char} {s : Symbol}
    (h : form.terminal d text = .symbol s) : form = .operator s ∨ (form, s) ∈ symbolForms := by
  cases form with
  | operator => exact .inl (congrArg Form.operator (Terminal.symbol.inj h))
  | word =>
    right
    simp only [Form.terminal, Form.wordTerminal] at h
    split at h
    · split at h
      · cases h
        decide
      · cases h
    · cases h
    · cases h
      decide
  | doubleQuoted =>
    right
    simp only [Form.terminal] at h
    split at h <;> cases h <;> decide
  | pipes =>
    right
    simp only [Form.terminal] at h
    split at h <;> cases h <;> decide
  | _ =>
    right
    cases h
    decide

theorem form_of_terminal_semicolon {d : Dialect} {form : Form} {text : List Char}
    (h : form.terminal d text = .symbol .semicolon) : form = .operator .semicolon := by
  rcases form_of_terminal h with hform | hmem
  · exact hform
  · simp [symbolForms] at hmem

section

variable {d : Dialect} {ls saved : List (Form × List Char)} {rest unread : List Char}
  {after : Option Form}

/-- No semicolon is saved at a fault, and none is left unread. -/
theorem ne_semicolon_of_ends (hends : Ends after rest saved unread) :
    ∀ p ∈ piecesOf d saved ++ leftover unread, p.1 ≠ .symbol .semicolon := by
  intro p hp hsemicolon
  rcases List.mem_append.1 hp with hp | hp
  · obtain ⟨l, hl, rfl⟩ := List.mem_map.1 hp
    have hform := form_of_terminal_semicolon hsemicolon
    cases hends with
    | whole => cases hl
    | @fault c _ _ fault _ _ =>
      unfold Lexeme.Fault.salvage at hl
      split at hl
      · cases hl
      · cases hl
      · rw [List.mem_singleton.1 hl] at hform
        cases hform
      · rw [List.mem_singleton.1 hl] at hform
        cases hform
  · unfold leftover at hp
    split at hp
    · cases hp
    · rw [List.mem_singleton.1 hp] at hsemicolon
      cases hsemicolon

/-- A semicolon among the pieces is a lexeme in front of the first fault. -/
theorem split_at_semicolon {tail front behind : List (Terminal × List Char)} {cs : List Char}
    (htail : ∀ p ∈ tail, p.1 ≠ .symbol .semicolon)
    (hsplit : piecesOf d ls ++ tail = front ++ (.symbol .semicolon, cs) :: behind) :
    ∃ first last, ls = first ++ (.operator .semicolon, cs) :: last ∧ front = piecesOf d first ∧
      behind = piecesOf d last ++ tail := by
  rcases List.append_eq_append_iff.1 hsplit with ⟨more, rfl, rfl⟩ | ⟨more, hls, hmore⟩
  · exact absurd rfl (htail (.symbol .semicolon, cs) (List.mem_append_right _ List.mem_cons_self))
  · cases more with
    | nil =>
      rw [List.nil_append] at hmore
      exact absurd rfl (htail (.symbol .semicolon, cs) (hmore ▸ List.mem_cons_self))
    | cons p more =>
      obtain ⟨rfl, rfl⟩ := List.cons.inj hmore
      obtain ⟨first, others, rfl, rfl, hothers⟩ := List.map_eq_append_iff.1 hls
      obtain ⟨l, last, rfl, hl, rfl⟩ := List.map_eq_cons_iff.1 hothers
      obtain ⟨form, text⟩ := l
      obtain ⟨hform, rfl⟩ := Prod.mk.inj hl
      obtain rfl : form = .operator .semicolon := form_of_terminal_semicolon hform
      exact ⟨first, last, rfl, rfl, rfl⟩

/-- What stands in front of a statement does not matter to its reading. -/
def Opens (after : Option Form) : Prop := after = none ∨ after = some (.operator .semicolon)

theorem Opens.scans (hafter : Opens after) (h : Scans after ls rest) : Scans none ls rest := by
  rcases hafter with rfl | rfl
  · exact h
  · exact h.of_semicolon

theorem Opens.ends (hafter : Opens after) (h : Ends (formBehind after ls) rest saved unread) :
    Ends (formBehind none ls) rest saved unread := by
  cases ls with
  | cons l ls => exact h
  | nil =>
    rcases hafter with rfl | rfl
    · exact h
    · exact h.of_semicolon

/-- The pieces of a statement that a semicolon follows, and those of the statement at the end. -/
theorem pieces_statement {front inside behind : List (Terminal × List Char)}
    (h : Scans none ls rest) (hends : Ends (formBehind none ls) rest saved unread)
    (hencloses : Encloses front inside behind)
    (hsplit : piecesOf d (ls ++ saved) ++ leftover unread = front ++ inside ++ behind) :
    pieces d (charsOf inside) = inside ++ [(Terminal.eof, [])] := by
  have htail := ne_semicolon_of_ends (d := d) hends
  rw [piecesOf_append, List.append_assoc] at hsplit
  -- The lexemes behind the semicolon in front, if there is one.
  obtain ⟨lead, ms, hms, hopens, hinside⟩ : ∃ lead ms, ls = lead ++ ms ∧
      Opens (formBehind none lead) ∧
      piecesOf d ms ++ (piecesOf d saved ++ leftover unread) = inside ++ behind := by
    rcases hencloses.before with rfl | ⟨more, cs, rfl⟩
    · exact ⟨[], ls, rfl, .inl rfl, hsplit⟩
    · rw [List.append_assoc, List.append_assoc, List.singleton_append] at hsplit
      obtain ⟨first, last, rfl, -, hlast⟩ := split_at_semicolon htail hsplit
      refine ⟨first ++ [(.operator .semicolon, cs)], last, by simp, .inr ?_, hlast.symm⟩
      rw [Lexeme.formBehind_append]
      rfl
  subst hms
  obtain ⟨-, hscans⟩ := Lexeme.scans_append.1 h
  rw [Lexeme.formBehind_append] at hends
  rcases hencloses.behind with rfl | ⟨cs, more, rfl⟩
  · rw [List.append_nil] at hinside
    have hpieces := pieces_of_scans d (hopens.scans hscans) (hopens.ends hends)
    rw [piecesOf_append, List.append_assoc (piecesOf d ms), hinside] at hpieces
    have hchars : charsOf inside = chars ms ++ rest := by
      rw [← hinside, hends.eq_append]
      simp
    rw [hchars, hpieces]
  · obtain ⟨first, last, rfl, rfl, -⟩ := split_at_semicolon htail hinside
    have hcs : cs = [';'] := h.semicolon (l := (.operator .semicolon, cs)) (by simp) rfl
    obtain ⟨hfirst, -⟩ := Lexeme.scans_append.1 hscans
    have halone : Scans (formBehind none lead) first [] := by
      refine hfirst.alike (Lexeme.alike_of_part List.nil_prefix fun _ => ?_)
      rw [Lexeme.chars_cons, hcs]
      rfl
    have hpieces := pieces_of_scans d (hopens.scans halone) .whole
    rw [List.append_nil, List.append_nil] at hpieces
    rw [charsOf_piecesOf, hpieces]
    simp [leftover]

end

/-- The statement at the caret: its span, and its pieces, which are those of the statement by
itself. -/
theorem exists_statement (d : Dialect) (text : String) {offset : Nat} (h : offset ≤ text.length) :
    ∃ front inside behind,
      pieces d text.toList = front ++ inside ++ behind ++ [(Terminal.eof, [])] ∧
      Encloses front inside behind ∧ (charsOf front).length ≤ offset ∧
      offset ≤ (charsOf (front ++ inside)).length ∧
      Statement.spanAt (ofText d text) offset =
        ⟨(charsOf front).length, (charsOf (front ++ inside)).length⟩ ∧
      pieces d (charsOf inside) = inside ++ [(Terminal.eof, [])] := by
  obtain ⟨ls, rest, saved, unread, htext, hscans, hends⟩ := Lexeme.exists_scans none text.toList
  have hpieces := pieces_of_scans d hscans hends
  rw [← htext] at hpieces
  have hchars : charsOf (piecesOf d (ls ++ saved) ++ leftover unread) = text.toList := by
    rw [htext, hends.eq_append]
    simp
  have hsemicolon : ∀ p ∈ piecesOf d (ls ++ saved) ++ leftover unread,
      p.1 = .symbol .semicolon → p.2.length = 1 := by
    intro p hp hkind
    rw [piecesOf_append, List.append_assoc] at hp
    rcases List.mem_append.1 hp with hp | hp
    · obtain ⟨l, hl, rfl⟩ := List.mem_map.1 hp
      rw [hscans.semicolon hl (form_of_terminal_semicolon hkind)]
      rfl
    · exact absurd hkind (ne_semicolon_of_ends hends p hp)
  obtain ⟨front, inside, behind, hsplit, hencloses, hfront, hinside, hfind⟩ :=
    exists_enclosed offset (piecesOf d (ls ++ saved) ++ leftover unread) hsemicolon [] [] 0
      ⟨.inl rfl, by simp, .inl rfl⟩ (Nat.zero_le _) (by
        rw [List.nil_append, List.nil_append, hchars, String.length_toList]
        exact h)
  rw [List.nil_append, List.nil_append] at hsplit hfind
  refine ⟨front, inside, behind, by rw [hpieces, hsplit], hencloses, hfront, hinside, ?_,
    pieces_statement hscans hends hencloses hsplit⟩
  rw [hchars, String.length_toList] at hfind
  unfold Statement.spanAt Statement.spans visible
  rw [tokens_ofText, hpieces]
  exact congrArg (Option.getD · _) hfind

/-! ## Tokens of the statement -/

@[simp] theorem charLength_ofText (d : Dialect) (source : String) :
    (ofText d source).charLength = source.length := rfl

theorem laid_shift (index start places delta : Nat) (ps : List (Terminal × List Char)) :
    laid (index + places) (start + delta) ps =
      (laid index start ps).map fun t =>
        { t with span := t.span.shift delta, index := t.index + places } := by
  induction ps generalizing index start with
  | nil => rfl
  | cons p ps ih =>
    have hindex : index + places + 1 = index + 1 + places := by omega
    have hstart : start + delta + p.2.length = start + p.2.length + delta := by omega
    rw [laid, laid, List.map_cons, hindex, hstart, ih]
    rfl

/-- A token lies where its piece does. -/
theorem span_of_mem_laid {t : Token} {index start : Nat} {ps : List (Terminal × List Char)}
    (h : t ∈ laid index start ps) :
    start ≤ t.span.start ∧ t.span.stop ≤ start + (charsOf ps).length ∧
      ∃ p ∈ ps, t.kind = p.1 ∧ t.span.stop = t.span.start + p.2.length := by
  induction ps generalizing index start with
  | nil => cases h
  | cons p ps ih =>
    rw [laid] at h
    rw [charsOf_cons, List.length_append]
    rcases List.mem_cons.1 h with rfl | h
    · exact ⟨Nat.le_refl _, by simp only; omega, p, List.mem_cons_self, rfl, rfl⟩
    · obtain ⟨hstart, hstop, q, hq, hkind, hlength⟩ := ih h
      exact ⟨by omega, by omega, q, List.mem_cons_of_mem p hq, hkind, hlength⟩

/-- The token is inside of the span. The end of a text is inside of none. -/
def isIn (span : Span) (t : Token) : Bool :=
  decide (span.start ≤ t.span.start) && decide (t.span.stop ≤ span.stop) && t.kind != .eof

/-- The tokens inside of a span that some of the pieces fill. -/
theorem filter_isIn {front inside behind : List (Terminal × List Char)}
    (hproper : ∀ p ∈ front ++ inside ++ behind, p.2 ≠ [] ∧ p.1 ≠ .eof) :
    (laid 0 0 (front ++ inside ++ behind ++ [(Terminal.eof, [])])).filter
        (isIn ⟨(charsOf front).length, (charsOf (front ++ inside)).length⟩) =
      laid front.length (charsOf front).length inside := by
  have hfront : ∀ t ∈ laid 0 0 front, ¬isIn
      ⟨(charsOf front).length, (charsOf (front ++ inside)).length⟩ t = true := by
    intro t ht hin
    obtain ⟨-, hstop, p, hp, -, hlength⟩ := span_of_mem_laid ht
    have hpos := List.length_pos_iff.2 (hproper p (by simp [hp])).1
    simp only [isIn, Bool.and_eq_true, decide_eq_true_eq] at hin
    omega
  have hinside : ∀ t ∈ laid (0 + front.length) (0 + (charsOf front).length) inside, isIn
      ⟨(charsOf front).length, (charsOf (front ++ inside)).length⟩ t = true := by
    intro t ht
    obtain ⟨hstart, hstop, p, hp, hkind, -⟩ := span_of_mem_laid ht
    have hne := (hproper p (by simp [hp])).2
    simp only [isIn, Bool.and_eq_true, decide_eq_true_eq, bne_iff_ne, hkind]
    rw [charsOf_append, List.length_append]
    exact ⟨⟨by omega, by omega⟩, hne⟩
  have hbehind : ∀ t ∈ laid (0 + (front ++ inside).length) (0 + (charsOf (front ++ inside)).length)
      behind, ¬isIn ⟨(charsOf front).length, (charsOf (front ++ inside)).length⟩ t = true := by
    intro t ht hin
    obtain ⟨hstart, -, p, hp, -, hlength⟩ := span_of_mem_laid ht
    have hpos := List.length_pos_iff.2 (hproper p (by simp [hp])).1
    simp only [isIn, Bool.and_eq_true, decide_eq_true_eq] at hin
    omega
  have hend : ∀ index start, (laid index start [(Terminal.eof, [])]).filter
      (isIn ⟨(charsOf front).length, (charsOf (front ++ inside)).length⟩) = [] := by
    intro index start
    rw [List.filter_eq_nil_iff]
    intro t ht hin
    rw [laid, laid, List.mem_singleton] at ht
    simp [isIn, ht] at hin
  rw [laid_append, laid_append, laid_append, List.filter_append, List.filter_append,
    List.filter_append, List.filter_eq_nil_iff.2 hfront, List.filter_eq_self.2 hinside,
    List.filter_eq_nil_iff.2 hbehind, hend, Nat.zero_add, Nat.zero_add]
  simp

end TokenStream

/-! ## The request -/

namespace Binding

theorem firstTable?_shift (delta : Nat) (references : List TableReference) :
    firstTable? (references.map (·.shift delta)) =
      (firstTable? references).map fun found => (found.1, found.2.shift delta) := by
  induction references with
  | nil => rfl
  | cons r references ih =>
    unfold firstTable? at ih ⊢
    rw [List.map_cons, List.findSome?_cons, List.findSome?_cons, ih]
    cases hr : r.table? with
    | none => simp [TableReference.shift, hr]
    | some name => simp [TableReference.shift, hr]

/-- Where the references stand does not matter to the columns. -/
theorem columnNames_shift (catalog? : Option Catalog) (delta : Nat)
    (references : List TableReference) :
    columnNames catalog? (references.map (·.shift delta)) = columnNames catalog? references := by
  unfold columnNames boundTable?
  rw [firstTable?_shift]
  cases catalog? with
  | none => rfl
  | some catalog =>
    cases firstTable? references with
    | none => rfl
    | some found =>
      obtain ⟨name, r⟩ := found
      have hschema : (r.shift delta).schemaName? = r.schemaName? := by
        cases hr : r.schema? <;> simp [TableReference.shift, TableReference.schemaName?, hr,
          NameAt.shift]
      simp only [Option.map_some, Option.bind_eq_bind, Option.bind_some, hschema]

/-- Where the references stand does not matter to the name of the first table. -/
theorem firstTable?_name_shift (delta : Nat) (references : List TableReference) :
    (firstTable? (references.map (·.shift delta))).map Prod.fst =
      (firstTable? references).map Prod.fst := by
  rw [firstTable?_shift, Option.map_map]
  rfl

end Binding

namespace Engine

theorem suggest_shift (e : Engine) (candidates : Candidates) (delta : Nat)
    (references : List TableReference) :
    e.suggest candidates (references.map (·.shift delta)) = e.suggest candidates references := by
  have hcolumns : e.columnsFor (references.map (·.shift delta)) = e.columnsFor references := by
    funext r
    simp only [columnsFor, Binding.columnNames_shift]
  have htables : e.tablesFor (references.map (·.shift delta)) = e.tablesFor references := by
    funext r
    simp only [tablesFor, Binding.firstTable?_name_shift]
  unfold suggest
  rw [hcolumns, htables]

theorem statement_analyzeStatement (e : Engine) (statement : Span) (text : String)
    (offset : Nat) : (e.analyzeStatement statement text offset).statement = statement := rfl

/-- The suggestions do not depend on where in the text the statement stands. -/
theorem items_analyzeStatement (e : Engine) (statement : Span) (text : String) (offset : Nat) :
    (e.analyzeStatement statement text offset).items =
      (e.analyzeStatement ⟨0, text.length⟩ text offset).items := by
  unfold analyzeStatement
  dsimp only
  rw [suggest_shift, suggest_shift]

end Engine

namespace Statement

/-- The statement in a span of a text. -/
def cut (text : String) (span : Span) : String := String.ofList (span.extract text.toList)

/-- The statement in the span reads by itself as it does in the text: it has no semicolon, and its
tokens but for the end are those that the text has there, moved to the start. -/
structure Isolated (d : Dialect) (text : String) (span : Span) : Prop where
  noSemicolon : ∀ t ∈ (TokenStream.ofText d (cut text span)).tokens, t.kind ≠ .symbol .semicolon
  tokens : ∃ places,
    (TokenStream.ofText d text).tokens.filter (TokenStream.isIn span) =
      (TokenStream.ofText d (cut text span)).tokens.dropLast.map fun t =>
        { t with span := t.span.shift span.start, index := t.index + places }

theorem spansFrom_of_forall {start stop : Nat} {tokens : List Token}
    (h : ∀ t ∈ tokens, t.kind ≠ .symbol .semicolon) :
    spansFrom start stop tokens = [⟨start, stop⟩] := by
  induction tokens with
  | nil => rfl
  | cons t tokens ih =>
    rw [spansFrom, if_neg (h t List.mem_cons_self)]
    exact ih fun u hu => h u (List.mem_cons_of_mem t hu)

/-- A text without semicolons is one statement. -/
theorem spanAt_of_forall {s : TokenStream} (h : ∀ t ∈ s.tokens, t.kind ≠ .symbol .semicolon)
    (offset : Nat) : spanAt s offset = ⟨0, s.charLength⟩ := by
  have hspans : spans s = [⟨0, s.charLength⟩] :=
    spansFrom_of_forall fun t ht => h t (List.mem_of_mem_filter ht)
  rw [spanAt, hspans]
  rfl

theorem cut_all (text : String) : cut text ⟨0, text.length⟩ = text := by
  unfold cut Span.extract Span.length
  rw [List.drop_zero, Nat.sub_zero, ← String.length_toList, List.take_length, String.ofList_toList]

theorem utf8ByteSize_cut_le (text : String) (span : Span) :
    (cut text span).utf8ByteSize ≤ text.utf8ByteSize := by
  have hsplit : text = String.ofList (text.toList.take span.start) ++ cut text span ++
      String.ofList ((text.toList.drop span.start).drop span.length) := by
    unfold cut Span.extract
    rw [← String.ofList_append, ← String.ofList_append, List.append_assoc, List.take_append_drop,
      List.take_append_drop, String.ofList_toList]
  have hsize := congrArg String.utf8ByteSize hsplit
  rw [String.utf8ByteSize_append, String.utf8ByteSize_append] at hsize
  omega

/-- The statement at the caret is isolated, and the caret is in it. -/
theorem spanAt_isolated (d : Dialect) (text : String) {offset : Nat} (h : offset ≤ text.length) :
    Isolated d text (spanAt (.ofText d text) offset) ∧
      (spanAt (.ofText d text) offset).start ≤ offset ∧
      offset - (spanAt (.ofText d text) offset).start ≤
        (cut text (spanAt (.ofText d text) offset)).length := by
  obtain ⟨front, inside, behind, hpieces, hencloses, hfront, hinside, hspan, halone⟩ :=
    TokenStream.exists_statement d text h
  obtain ⟨ps, hps, hproper⟩ := TokenStream.pieces_eq_append_eof d text.toList
  obtain rfl : ps = front ++ inside ++ behind :=
    List.append_cancel_right (hps.symm.trans hpieces)
  have hcut : (cut text ⟨(TokenStream.charsOf front).length,
      (TokenStream.charsOf (front ++ inside)).length⟩).toList = TokenStream.charsOf inside := by
    have hchars := TokenStream.charsOf_pieces d text.toList
    rw [hpieces] at hchars
    unfold cut Span.extract Span.length
    rw [String.toList_ofList, ← hchars]
    simp
  have htokens : (TokenStream.ofText d (cut text ⟨(TokenStream.charsOf front).length,
      (TokenStream.charsOf (front ++ inside)).length⟩)).tokens =
        TokenStream.laid 0 0 (inside ++ [(Terminal.eof, [])]) := by
    rw [TokenStream.tokens_ofText, hcut, halone]
  rw [hspan]
  refine ⟨⟨?_, front.length, ?_⟩, hfront, ?_⟩
  · intro t ht
    rw [htokens] at ht
    obtain ⟨-, -, p, hp, hkind, -⟩ := TokenStream.span_of_mem_laid ht
    rw [hkind]
    rcases List.mem_append.1 hp with hp | hp
    · exact hencloses.inside p hp
    · rw [List.mem_singleton.1 hp]
      simp
  · rw [htokens, TokenStream.tokens_ofText, hpieces, TokenStream.filter_isIn hproper,
      TokenStream.laid_append]
    have hshift := TokenStream.laid_shift 0 0 front.length (TokenStream.charsOf front).length inside
    rw [Nat.zero_add, Nat.zero_add] at hshift
    rw [hshift]
    exact congrArg (List.map _) List.dropLast_concat.symm
  · rw [← String.length_toList, hcut]
    rw [TokenStream.charsOf_append, List.length_append] at hinside
    simp only
    omega

end Statement

namespace Engine

/-- The engine with the parser for MySQL and any collector. -/
def withCollector (options : Options) (collector : Collector) : Engine :=
  ⟨options, .mysql options.dialect, collector⟩

/-- A text that is not too large is served, for the statement at the caret. -/
theorem analyze_eq (options : Options) (collector : Collector) {text : String} {offset : Nat}
    (hsize : text.utf8ByteSize ≤ maxTextBytes) (h : offset ≤ text.length) :
    ∃ analysis, (withCollector options collector).analyze text offset = .ok analysis ∧
      analysis.statement = Statement.spanAt (.ofText options.dialect text) offset ∧
      analysis.items =
        ((withCollector options collector).analyzeStatement
          ⟨0, (Statement.cut text analysis.statement).length⟩
          (Statement.cut text analysis.statement) (offset - analysis.statement.start)).items := by
  have hoffset : resolveOffset (withCollector options collector).options.offsetPolicy offset
      text.length = .ok offset := if_pos h
  have hstream : ((withCollector options collector).parser text .query).stream =
      .ofText options.dialect text := rfl
  unfold analyze
  rw [if_neg (Nat.not_lt.2 hsize), hoffset]
  simp only [bind, Except.bind, pure, Except.pure, hstream]
  generalize Statement.spanAt (.ofText options.dialect text) offset = statement
  have hitems := items_analyzeStatement (withCollector options collector) statement
    (Statement.cut text statement) (offset - statement.start)
  have hstatement := statement_analyzeStatement (withCollector options collector) statement
    (Statement.cut text statement) (offset - statement.start)
  rw [← Statement.cut]
  generalize (withCollector options collector).analyzeStatement statement
    (Statement.cut text statement) (offset - statement.start) = analysis at hitems hstatement ⊢
  subst hstatement
  exact ⟨_, rfl, rfl, hitems⟩

/-- Whatever the collector is, a text that is not too large gets the suggestions that the statement
at the caret gets by itself, and the statement reads by itself as it does in the text. -/
theorem complete_isolated (options : Options) (collector : Collector) (text : String)
    (offset : Nat) (h : offset ≤ text.length) :
    (maxTextBytes < text.utf8ByteSize ∧
      (withCollector options collector).complete text offset =
        .error (.inputTooLarge text.utf8ByteSize maxTextBytes)) ∨
    ∃ analysis, (withCollector options collector).analyze text offset = .ok analysis ∧
      analysis.statement.start ≤ offset ∧
      (withCollector options collector).complete text offset = .ok analysis.items ∧
      (withCollector options collector).complete (Statement.cut text analysis.statement)
        (offset - analysis.statement.start) = .ok analysis.items ∧
      Statement.Isolated options.dialect text analysis.statement := by
  rcases Nat.lt_or_ge maxTextBytes text.utf8ByteSize with hlarge | hsize
  · refine .inl ⟨hlarge, ?_⟩
    unfold complete analyze
    rw [if_pos hlarge]
    rfl
  · right
    obtain ⟨analysis, hok, hstatement, hitems⟩ := analyze_eq options collector hsize h
    obtain ⟨hisolated, hstart, hinside⟩ := Statement.spanAt_isolated options.dialect text h
    rw [← hstatement] at hisolated hstart hinside
    -- The statement by itself is one statement, so it is served for the whole of it.
    obtain ⟨alone, halone, hwhole, hsame⟩ := analyze_eq options collector
      (Nat.le_trans (Statement.utf8ByteSize_cut_le text analysis.statement) hsize) hinside
    rw [Statement.spanAt_of_forall hisolated.noSemicolon] at hwhole
    rw [hwhole, TokenStream.charLength_ofText, Statement.cut_all, Nat.sub_zero, ← hitems] at hsame
    refine ⟨analysis, hok, hstart, ?_, ?_, hisolated⟩
    · rw [complete, hok]
      rfl
    · rw [complete, halone, ← hsame]
      rfl

/-- A semicolon in a quoted text does not end a statement; the second statement starts behind the
next one. -/
theorem complete_isolated_secondStatement :
    30 ≤ "SELECT ';'; DELETE FROM users ".length ∧
      (mysql {}).complete "SELECT ';'; DELETE FROM users " 30 =
        (mysql {}).complete " DELETE FROM users " 19 ∧
      Statement.Isolated {} "SELECT ';'; DELETE FROM users " ⟨11, 30⟩ := by
  have hoffset : 30 ≤ "SELECT ';'; DELETE FROM users ".length := by decide +kernel
  refine ⟨hoffset, ?_⟩
  rcases complete_isolated {} (.mysql {}) "SELECT ';'; DELETE FROM users " 30 hoffset with
    ⟨hlarge, -⟩ | ⟨analysis, hok, -, hwhole, halone, hisolated⟩
  · exact absurd hlarge (by decide +kernel)
  · have hspan : ((withCollector {} (.mysql {})).analyze "SELECT ';'; DELETE FROM users " 30).map
        Analysis.statement = .ok ⟨11, 30⟩ := by decide +kernel
    rw [hok] at hspan
    have hstatement : analysis.statement = ⟨11, 30⟩ := Except.ok.inj hspan
    have hcut : Statement.cut "SELECT ';'; DELETE FROM users " ⟨11, 30⟩ =
        " DELETE FROM users " := by
      decide +kernel
    rw [hstatement, hcut] at halone
    rw [hstatement] at hisolated
    exact ⟨hwhole.trans halone.symm, hisolated⟩

end Engine

end SqlCompletion
