import SqlCompletion.Proofs.Isolation
set_option autoImplicit false

/-!
# Statements divide a text

Between the first character of a text and its end lie its semicolons, and the statements are what is
left between them (`Divided`). So there is one statement more than there are semicolons, each two
neighbours have exactly one character between them, and every place of a caret belongs to one
statement and to no other: to the one that is selected for it.

The main result says this of every text in every dialect (`spans_partition`), with the case of a
caret right behind a semicolon, which is in the statement that starts there. A semicolon is a token,
so one in a quoted text or in a comment divides nothing, and a statement may be empty.

`Divided` is told without a text: some spans lie between two places, each ends at a mark of one
character, and the next one starts behind it. That is enough for all that is said of neighbours and
places (`Divided.between`, `Divided.unique`, `Divided.exists_find?`). That the statements of a text
are divided by its semicolons is read off the pieces of the text (`divided_spansFrom`), in which a
semicolon is always one character (`char_of_semicolon`).

An offset behind the end of the text is not a place of a caret here.
-/

namespace SqlCompletion.Statement

open TokenStream (charsOf laidVisible pieces)

/-! ## Spans between marks -/

/-- The spans divide what lies between two places: each of them ends at a mark of one character,
and the next one starts behind it. -/
inductive Divided : (start stop : Nat) → (marks spans : List Span) → Prop
  | last {start stop : Nat} (le : start ≤ stop) : Divided start stop [] [⟨start, stop⟩]
  | mark {start stop place : Nat} {marks spans : List Span} (le : start ≤ place)
      (rest : Divided (place + 1) stop marks spans) :
      Divided start stop (⟨place, place + 1⟩ :: marks) (⟨start, place⟩ :: spans)

namespace Divided

variable {start stop offset : Nat} {marks spans : List Span}

theorem length_eq (h : Divided start stop marks spans) : spans.length = marks.length + 1 := by
  induction h with
  | last => rfl
  | mark _ _ ih => rw [List.length_cons, List.length_cons, ih]

theorem start_head? (h : Divided start stop marks spans) :
    spans.head?.map Span.start = some start := by
  cases h with
  | last => rfl
  | mark => rfl

theorem stop_getLast? (h : Divided start stop marks spans) :
    spans.getLast?.map Span.stop = some stop := by
  induction h with
  | last => rfl
  | @mark _ _ _ _ spans _ rest ih =>
    cases spans with
    | nil => cases rest
    | cons span spans => rwa [List.getLast?_cons_cons]

theorem start_le_stop (h : Divided start stop marks spans) : start ≤ stop := by
  induction h with
  | last le => exact le
  | mark le _ ih => omega

theorem bounds (h : Divided start stop marks spans) {span : Span} (hmem : span ∈ spans) :
    start ≤ span.start ∧ span.start ≤ span.stop ∧ span.stop ≤ stop := by
  induction h with
  | last le =>
    obtain rfl := List.mem_singleton.1 hmem
    exact ⟨Nat.le_refl _, le, Nat.le_refl _⟩
  | mark le rest ih =>
    rcases List.mem_cons.1 hmem with rfl | hmem
    · exact ⟨Nat.le_refl _, le, Nat.le_of_succ_le rest.start_le_stop⟩
    · have hbehind := ih hmem
      omega

/-- Two neighbours have one mark between them. -/
theorem between (h : Divided start stop marks spans) {i : Nat} {span next : Span}
    (hspan : spans[i]? = some span) (hnext : spans[i + 1]? = some next) :
    marks[i]? = some ⟨span.stop, next.start⟩ ∧ next.start = span.stop + 1 := by
  induction h generalizing i with
  | last => simp at hnext
  | @mark start stop place marks spans le rest ih =>
    cases i with
    | zero =>
      have hfirst := rest.start_head?
      rw [List.getElem?_cons_succ, ← List.head?_eq_getElem?] at hnext
      rw [hnext, Option.map_some, Option.some.injEq] at hfirst
      obtain rfl := Option.some.inj hspan
      rw [hfirst]
      exact ⟨rfl, rfl⟩
    | succ i => exact ih hspan hnext

/-- A span behind which a mark stands, and the span behind the mark. -/
theorem exists_behind (h : Divided start stop marks spans) {i : Nat} {mark : Span}
    (hmark : marks[i]? = some mark) :
    ∃ next, spans[i + 1]? = some next ∧ next.start = mark.stop := by
  have hlength := h.length_eq
  have hi := (List.getElem?_eq_some_iff.1 hmark).1
  have hspan := List.getElem?_eq_getElem (l := spans) (i := i) (by omega)
  have hnext := List.getElem?_eq_getElem (l := spans) (i := i + 1) (by omega)
  obtain ⟨hbetween, -⟩ := h.between hspan hnext
  refine ⟨_, hnext, ?_⟩
  rw [hmark, Option.some.injEq] at hbetween
  rw [hbetween]

/-- A place is in one span only, the ends of the span included. -/
theorem unique (h : Divided start stop marks spans) {span other : Span} (hspan : span ∈ spans)
    (hother : other ∈ spans) (hin : span.start ≤ offset ∧ offset ≤ span.stop)
    (hin' : other.start ≤ offset ∧ offset ≤ other.stop) : other = span := by
  induction h with
  | last =>
    rw [List.mem_singleton.1 hspan, List.mem_singleton.1 hother]
  | @mark start stop place marks spans le rest ih =>
    rcases List.mem_cons.1 hspan with rfl | hspan
    · rcases List.mem_cons.1 hother with rfl | hother
      · rfl
      · have hbehind := rest.bounds hother
        dsimp only at hin
        omega
    · rcases List.mem_cons.1 hother with rfl | hother
      · have hbehind := rest.bounds hspan
        dsimp only at hin'
        omega
      · exact ih hspan hother

/-- The last span that does not start behind a place holds it. -/
theorem exists_find? (h : Divided start stop marks spans) (hstart : start ≤ offset)
    (hstop : offset ≤ stop) :
    ∃ span ∈ spans, span.start ≤ offset ∧ offset ≤ span.stop ∧
      spans.reverse.find? (fun span => decide (span.start ≤ offset)) = some span := by
  induction h with
  | last =>
    refine ⟨_, List.mem_singleton_self _, hstart, hstop, ?_⟩
    simp [hstart]
  | @mark start stop place marks spans le rest ih =>
    rw [List.reverse_cons, List.find?_append]
    rcases Nat.lt_or_ge place offset with hbehind | hinside
    · obtain ⟨span, hmem, hle, hin, hfind⟩ := ih hbehind hstop
      exact ⟨span, List.mem_cons_of_mem _ hmem, hle, hin, by rw [hfind, Option.some_or]⟩
    · have hnone : spans.reverse.find? (fun span => decide (span.start ≤ offset)) = none := by
        rw [List.find?_eq_none]
        intro span hspan
        have hbehind := (rest.bounds (List.mem_reverse.1 hspan)).1
        simp only [decide_eq_true_eq]
        omega
      refine ⟨_, List.mem_cons_self, hstart, hinside, ?_⟩
      rw [hnone, Option.none_or]
      simp [hstart]

end Divided

/-! ## The semicolons of a text -/

/-- The spans of the semicolons among some tokens. -/
def marks (tokens : List Token) : List Span :=
  (tokens.filter fun t => t.kind == .symbol .semicolon).map Token.span

/-- No semicolon is hidden. -/
theorem marks_visible (s : TokenStream) : marks s.visible = marks s.tokens := by
  unfold marks TokenStream.visible
  rw [List.filter_filter]
  refine congrArg _ (List.filter_congr fun t _ => ?_)
  by_cases ht : t.kind = .symbol .semicolon
  · simp [ht, Token.isHidden, Token.channel, Terminal.channel]
  · simp [ht]

theorem piece_of_semicolon {d : Dialect} {text : List Char} {p : Terminal × List Char}
    (hp : p ∈ pieces d text) (hkind : p.1 = .symbol .semicolon) : p.2 = [';'] := by
  obtain ⟨ls, rest, saved, unread, rfl, hscans, hends⟩ := Lexeme.exists_scans none text
  rw [TokenStream.pieces_of_scans d hscans hends, TokenStream.piecesOf_append, List.append_assoc,
    List.append_assoc, List.mem_append, ← List.append_assoc, List.mem_append] at hp
  rcases hp with hp | hp | hp
  · obtain ⟨l, hl, rfl⟩ := List.mem_map.1 hp
    exact hscans.semicolon hl (TokenStream.form_of_terminal_semicolon hkind)
  · exact absurd hkind (TokenStream.ne_semicolon_of_ends hends p hp)
  · rw [List.mem_singleton.1 hp] at hkind
    cases hkind

/-- Every semicolon of a text is the one character in its span. -/
theorem char_of_semicolon {d : Dialect} {text : String} {t : Token}
    (ht : t ∈ (TokenStream.ofText d text).tokens) (hkind : t.kind = .symbol .semicolon) :
    text.toList[t.span.start]? = some ';' := by
  rw [TokenStream.tokens_ofText] at ht
  obtain ⟨hextract, -⟩ := TokenStream.extract_of_mem_laid ht
  obtain ⟨k, hk⟩ := List.getElem?_of_mem ht
  obtain ⟨p, hp, rfl⟩ := TokenStream.exists_of_getElem?_laid hk
  rw [TokenStream.charsOf_pieces, piece_of_semicolon (List.mem_of_getElem? hp) hkind] at hextract
  have hchars := (String.ofList_injective hextract).symm
  have hhead := congrArg List.head? hchars
  rwa [Span.extract, List.head?_take, if_neg (by simp [Span.length]), List.head?_drop] at hhead

/-- The spans from a place on, read off the pieces behind it. -/
theorem divided_spansFrom {ps : List (Terminal × List Char)}
    (hsemicolon : ∀ p ∈ ps, p.1 = .symbol .semicolon → p.2 = [';']) {start pos : Nat}
    (hle : start ≤ pos) (index : Nat) :
    Divided start (pos + (charsOf ps).length) (marks (laidVisible index pos ps))
      (spansFrom start (pos + (charsOf ps).length) (laidVisible index pos ps)) := by
  induction ps generalizing start pos index with
  | nil => exact .last (by simpa using hle)
  | cons p ps ih =>
    have hrest : ∀ q ∈ ps, q.1 = .symbol .semicolon → q.2 = [';'] :=
      fun q hq => hsemicolon q (List.mem_cons_of_mem p hq)
    rw [TokenStream.charsOf_cons, List.length_append, ← Nat.add_assoc]
    by_cases hp : p.1 = .symbol .semicolon
    · obtain ⟨kind, cs⟩ := p
      obtain rfl : kind = .symbol .semicolon := hp
      obtain rfl : cs = [';'] := hsemicolon _ List.mem_cons_self rfl
      rw [TokenStream.spansFrom_semicolon]
      exact .mark hle (ih hrest (Nat.le_refl _) (index + 1))
    · rw [TokenStream.spansFrom_other hp]
      have hmarks : marks (laidVisible index pos (p :: ps)) =
          marks (laidVisible (index + 1) (pos + p.2.length) ps) := by
        unfold laidVisible
        rw [List.cons_append, TokenStream.laid, List.filter_cons]
        split
        · simp [marks, hp]
        · rfl
      rw [hmarks]
      exact ih hrest (by omega) (index + 1)

/-- The statements of a text lie between its semicolons. -/
theorem divided_spans (d : Dialect) (text : String) :
    Divided 0 text.length (marks (TokenStream.ofText d text).tokens)
      (spans (TokenStream.ofText d text)) := by
  obtain ⟨ps, hps, -⟩ := TokenStream.pieces_eq_append_eof d text.toList
  have hchars := TokenStream.charsOf_pieces d text.toList
  rw [hps, TokenStream.charsOf_append, TokenStream.charsOf_cons, List.nil_append,
    TokenStream.charsOf_nil, List.append_nil] at hchars
  have hvisible : (TokenStream.ofText d text).visible = laidVisible 0 0 ps := by
    rw [TokenStream.visible, TokenStream.tokens_ofText, hps, laidVisible]
  have hsemicolon : ∀ p ∈ ps, p.1 = .symbol .semicolon → p.2 = [';'] := by
    intro p hp
    have hpiece : p ∈ pieces d text.toList := hps ▸ List.mem_append_left _ hp
    exact piece_of_semicolon hpiece
  have hdivided := divided_spansFrom hsemicolon (Nat.le_refl 0) 0
  rw [hchars, String.length_toList, Nat.zero_add, ← hvisible, marks_visible] at hdivided
  exact hdivided

/-! ## The statement of a caret -/

/-- The spans are those of the statements of a text with these semicolons: they go from the first
character to the end, one behind the other, each as far as the semicolon in front of the next. -/
structure Partition (text : String) (marks spans : List Span) : Prop where
  length : spans.length = marks.length + 1
  first : spans.head?.map Span.start = some 0
  last : spans.getLast?.map Span.stop = some text.length
  ordered : ∀ span ∈ spans, span.start ≤ span.stop
  adjoin : ∀ (i : Nat) (span next : Span), spans[i]? = some span → spans[i + 1]? = some next →
    marks[i]? = some ⟨span.stop, next.start⟩ ∧ next.start = span.stop + 1 ∧
      text.toList[span.stop]? = some ';'

/-- The statement in the span is the only one that the caret is in, the places at its ends
included. Counted from its start, the caret is not behind its end. -/
structure HoldsCaret (text : String) (spans : List Span) (offset : Nat) (span : Span) : Prop where
  mem : span ∈ spans
  start_le : span.start ≤ offset
  le_stop : offset ≤ span.stop
  only : ∀ other ∈ spans, other.start ≤ offset → offset ≤ other.stop → other = span
  relative : offset - span.start ≤ (cut text span).length

theorem length_cut {text : String} {span : Span} (h : span.stop ≤ text.length) :
    (cut text span).length = span.stop - span.start := by
  rw [cut, String.length_ofList, Span.extract, List.length_take, List.length_drop,
    String.length_toList, Span.length]
  omega

section

variable (d : Dialect) (text : String)

theorem partition_spans :
    Partition text (marks (TokenStream.ofText d text).tokens)
      (spans (TokenStream.ofText d text)) := by
  have hdivided := divided_spans d text
  refine ⟨hdivided.length_eq, hdivided.start_head?, hdivided.stop_getLast?,
    fun span hspan => (hdivided.bounds hspan).2.1, fun i span next hspan hnext => ?_⟩
  obtain ⟨hmark, hstart⟩ := hdivided.between hspan hnext
  refine ⟨hmark, hstart, ?_⟩
  -- The mark is the span of a token.
  obtain ⟨t, ht, hplace⟩ := List.mem_map.1 (List.mem_of_getElem? hmark)
  obtain ⟨ht, hkind⟩ := List.mem_filter.1 ht
  have hchar := char_of_semicolon ht (beq_iff_eq.1 hkind)
  rwa [hplace] at hchar

theorem holdsCaret_spanAt {offset : Nat} (h : offset ≤ text.length) :
    HoldsCaret text (spans (TokenStream.ofText d text)) offset
      (spanAt (TokenStream.ofText d text) offset) := by
  have hdivided := divided_spans d text
  obtain ⟨span, hmem, hle, hin, hfind⟩ := hdivided.exists_find? (Nat.zero_le offset) h
  have hspan : spanAt (TokenStream.ofText d text) offset = span := by
    rw [spanAt, hfind, Option.getD_some]
  rw [hspan]
  refine ⟨hmem, hle, hin, fun other hother hstart hstop =>
    hdivided.unique hmem hother ⟨hle, hin⟩ ⟨hstart, hstop⟩, ?_⟩
  rw [length_cut (hdivided.bounds hmem).2.2]
  omega

end

/-- The statements of every text, in every dialect, are what its semicolons divide it into. Each
place of a caret is in one of them, the one that is selected for it. Right behind a semicolon that
is the statement that follows. -/
theorem spans_partition (d : Dialect) (text : String) :
    Partition text (marks (TokenStream.ofText d text).tokens) (spans (TokenStream.ofText d text)) ∧
    (∀ offset ≤ text.length, HoldsCaret text (spans (TokenStream.ofText d text)) offset
      (spanAt (TokenStream.ofText d text) offset)) ∧
    ∀ (i : Nat) (mark next : Span), (marks (TokenStream.ofText d text).tokens)[i]? = some mark →
      (spans (TokenStream.ofText d text))[i + 1]? = some next →
      spanAt (TokenStream.ofText d text) mark.stop = next := by
  refine ⟨partition_spans d text, fun offset h => holdsCaret_spanAt d text h, ?_⟩
  intro i mark next hmark hnext
  have hdivided := divided_spans d text
  obtain ⟨behind, hbehind, hstart⟩ := hdivided.exists_behind hmark
  obtain rfl : next = behind := Option.some.inj (hnext.symm.trans hbehind)
  have hmem := List.mem_of_getElem? hnext
  obtain ⟨-, hle, hstop⟩ := hdivided.bounds hmem
  have hinside : mark.stop ≤ text.length := by omega
  have hcaret := holdsCaret_spanAt d text hinside
  exact (hcaret.only next hmem (Nat.le_of_eq hstart) (by omega)).symm

/-- The semicolon in the quoted text is no mark. The caret between the two others is in the empty
statement there. -/
theorem spans_partition_emptyStatement :
    let s := TokenStream.ofText {} "SELECT ';';; DELETE"
    11 ≤ "SELECT ';';; DELETE".length ∧
      (marks s.tokens)[0]? = some ⟨10, 11⟩ ∧ (spans s)[1]? = some ⟨11, 11⟩ ∧
      HoldsCaret "SELECT ';';; DELETE" (spans s) 11 (spanAt s 11) ∧
      spanAt s 11 = ⟨11, 11⟩ := by
  have hoffset : 11 ≤ "SELECT ';';; DELETE".length := by decide +kernel
  have hmark : (marks (TokenStream.ofText {} "SELECT ';';; DELETE").tokens)[0]? =
      some ⟨10, 11⟩ := by decide +kernel
  have hnext : (spans (TokenStream.ofText {} "SELECT ';';; DELETE"))[1]? = some ⟨11, 11⟩ := by
    decide +kernel
  obtain ⟨-, hcaret, hbehind⟩ := spans_partition {} "SELECT ';';; DELETE"
  exact ⟨hoffset, hmark, hnext, hcaret 11 hoffset, hbehind 0 ⟨10, 11⟩ ⟨11, 11⟩ hmark hnext⟩

end SqlCompletion.Statement
