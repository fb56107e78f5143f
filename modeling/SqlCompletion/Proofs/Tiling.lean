import Mathlib.Data.List.Basic
import SqlCompletion.Proofs.Reading
import SqlCompletion.Token.Stream
set_option autoImplicit false

/-!
# Token streams tile the text

The stream of a text is the sequence of its pieces, laid one behind the other (`tokens_ofText`): the
lexemes of the readable part, then what was left unread, then the end. A stream is built by folding
over lexemes that know their lines and columns; pieces know only their characters, which is all that
most modules need.

The main result is `ofText_tiles`: whatever the text and the dialect are, the stream is one of that
text and tiles it (`TokenStream.Tiles`). The tokens are numbered from zero, each starts where the
one in front of it ends, each holds exactly the characters of its span, and none but the last is
empty. All of that follows from the stream being laid (`IsLaid.tiles`), and being laid follows from
two facts about the reading: it loses no character (`charsOf_lexemes`), and the span of a lexeme is
found from its locations (`span_of_past`).

Two consequences are used wherever a caret is given by a character.

* A character of the text is held by one token (`IsLaid.exists_contains`, `Tiles.eq_of_contains`),
  and the index at the character is that of this token (`Tiles.indexAt_of_contains`).
* Where there is no character, the index is that of the end (`Tiles.indexAt_of_le`).

A character is a Unicode scalar value throughout, as spans count them. What kinds the tokens have is
not said here.
-/

namespace SqlCompletion.TokenStream

open Text (Location LineIndex)

/-! ## Pieces -/

/-- The terminals of a text with the characters of each: the readable part, then what is left as
one piece, then the end. -/
def pieces (d : Dialect) (text : List Char) : List (Terminal × List Char) :=
  (Lexeme.readable text).1.map (fun l => (l.terminal d, l.text)) ++
    (if (Lexeme.readable text).2 < text.length then
      [(Terminal.invalid, text.drop (Lexeme.readable text).2)] else []) ++ [(Terminal.eof, [])]

/-- The tokens of some pieces that lie one behind the other, the first of them at the character
`start` with the index `index`. -/
def laid (index start : Nat) : List (Terminal × List Char) → List Token
  | [] => []
  | (kind, cs) :: rest =>
    ⟨kind, String.ofList cs, ⟨start, start + cs.length⟩, index⟩ ::
      laid (index + 1) (start + cs.length) rest

/-- The characters of some pieces. -/
def charsOf (ps : List (Terminal × List Char)) : List Char := ps.flatMap Prod.snd

@[simp] theorem charsOf_nil : charsOf [] = [] := rfl

@[simp] theorem charsOf_cons (p : Terminal × List Char) (ps : List (Terminal × List Char)) :
    charsOf (p :: ps) = p.2 ++ charsOf ps := rfl

@[simp] theorem charsOf_append (ps qs : List (Terminal × List Char)) :
    charsOf (ps ++ qs) = charsOf ps ++ charsOf qs := List.flatMap_append

theorem laid_append (index start : Nat) (ps qs : List (Terminal × List Char)) :
    laid index start (ps ++ qs) =
      laid index start ps ++ laid (index + ps.length) (start + (charsOf ps).length) qs := by
  induction ps generalizing index start with
  | nil => rfl
  | cons p ps ih =>
    simp only [List.cons_append, laid, ih, List.length_cons, charsOf_cons, List.length_append]
    congr 3 <;> omega

@[simp] theorem length_laid (index start : Nat) (ps : List (Terminal × List Char)) :
    (laid index start ps).length = ps.length := by
  induction ps generalizing index start with
  | nil => rfl
  | cons p ps ih => rw [laid, List.length_cons, List.length_cons, ih]

/-- The token at an index: it lies behind the characters of all the pieces in front of it. -/
theorem getElem?_laid (index start k : Nat) (ps : List (Terminal × List Char)) :
    (laid index start ps)[k]? = ps[k]?.map fun p =>
      ⟨p.1, String.ofList p.2, ⟨start + (charsOf (ps.take k)).length,
        start + (charsOf (ps.take (k + 1))).length⟩, index + k⟩ := by
  induction ps generalizing index start k with
  | nil => rfl
  | cons p ps ih =>
    cases k with
    | zero => simp [laid]
    | succ k => simp [laid, ih, Nat.add_assoc, Nat.add_comm 1 k]

/-! ## The stream is made of the pieces of the text -/

@[simp] theorem size_lay (chars : Array Char) (tokens : Array Token) (kind : Terminal)
    (span : Span) : (lay chars tokens kind span).size = tokens.size + 1 :=
  Array.size_push ..

/-- Laying a token for the characters between two parts of a text. -/
theorem toList_lay (before cs behind : List Char) (tokens : Array Token) (kind : Terminal) :
    (lay (before ++ cs ++ behind).toArray tokens kind
        ⟨before.length, before.length + cs.length⟩).toList =
      tokens.toList ++ laid tokens.size before.length [(kind, cs)] := by
  simp [lay, laid]

/-- The span of a lexeme is found from its locations: it starts behind the characters in front
of it and is as long as its text. -/
theorem span_of_past (before cs rest : List Char) (form : Form) :
    Lexeme.span (LineIndex.ofText (before ++ (cs ++ rest))) (before ++ (cs ++ rest)).length
        ⟨form, cs, Location.origin.past before, (Location.origin.past before).past cs⟩ =
      ⟨before.length, before.length + cs.length⟩ := by
  have hstart := LineIndex.offset_past before (cs ++ rest)
  have hstop := LineIndex.offset_past (before ++ cs) rest
  rw [List.append_assoc, Location.past_append, List.length_append] at hstop
  simp only [Lexeme.span, hstart, hstop, List.length_append, Span.mk.injEq]
  omega

/-- The lexemes of the readable part are laid behind the tokens that are there already. -/
theorem toList_foldl_lay (d : Dialect) (unread : List Char) {here : Location} {rest : List Char}
    {ls : List Lexeme} (hcut : Lexeme.Cut here rest ls) (before : List Char)
    (hhere : here = Location.origin.past before) (tokens : Array Token) :
    (ls.foldl (fun tokens l => lay (before ++ rest ++ unread).toArray tokens (l.terminal d)
        (l.span (LineIndex.ofText (before ++ rest)) (before ++ rest).length)) tokens).toList =
      tokens.toList ++
        laid tokens.size before.length (ls.map fun l => (l.terminal d, l.text)) := by
  induction hcut generalizing before tokens with
  | nil here => simp [laid]
  | @cons here form text rest ls nonempty notEnd tail ih =>
    subst hhere
    -- The same text, cut behind the first lexeme.
    have hsame : before ++ (text ++ rest) = (before ++ text) ++ rest :=
      (List.append_assoc ..).symm
    have hlaid := toList_lay before text (rest ++ unread) tokens
      (Lexeme.terminal d ⟨form, text, Location.origin.past before,
        (Location.origin.past before).past text⟩)
    have htail := ih (before ++ text) (Location.past_append ..).symm
    rw [List.foldl_cons, span_of_past before text rest form, hsame, htail]
    have hchars : before ++ text ++ rest ++ unread = before ++ text ++ (rest ++ unread) :=
      List.append_assoc ..
    rw [hchars, hlaid, List.map_cons, List.append_assoc, List.append_cancel_left_eq]
    simp [laid, lay]

/-- The lexemes of a text hold all its characters. -/
theorem charsOf_lexemes (d : Dialect) {here : Location} {text : List Char} {ls : List Lexeme}
    (hcut : Lexeme.Cut here text ls) :
    charsOf (ls.map fun l => (l.terminal d, l.text)) = text := by
  induction hcut with
  | nil => rfl
  | cons _ _ _ ih => rw [List.map_cons, charsOf_cons, ih]

/-- The tokens of a text of which `known` was read and `unread` was not. -/
theorem toList_layAll (d : Dialect) {known : List Char} (unread : List Char) {ls : List Lexeme}
    (hcut : Lexeme.Cut .origin known ls) :
    (layAll d (known ++ unread) ls known.length).toList =
      laid 0 0 (ls.map (fun l => (l.terminal d, l.text)) ++
        (if known.length < (known ++ unread).length then [(Terminal.invalid, unread)] else []) ++
          [(Terminal.eof, [])]) := by
  have hread := toList_foldl_lay d unread hcut [] rfl #[]
  have hchars := charsOf_lexemes d hcut
  simp only [List.nil_append, List.size_toArray, List.length_nil] at hread
  unfold layAll
  dsimp only
  rw [List.take_left]
  generalize ls.foldl (fun tokens l => lay (known ++ unread).toArray tokens (l.terminal d)
    (l.span (LineIndex.ofText known) known.length)) #[] = readTokens at hread ⊢
  generalize ls.map (fun l => (l.terminal d, l.text)) = ps at hread hchars ⊢
  have hsize : readTokens.size = ps.length := by
    rw [← Array.length_toList, hread, length_laid]
  have hend := toList_lay (known ++ unread) [] []
  simp only [List.append_nil, List.length_nil, Nat.add_zero] at hend
  rw [List.size_toArray]
  split
  · have hinvalid := toList_lay known unread [] readTokens .invalid
    rw [List.append_nil, ← List.length_append] at hinvalid
    rw [hend, hinvalid, hread, size_lay, hsize, laid_append, laid_append]
    simp [hchars]
  · rename_i hnone
    have hnil : unread = [] := by
      rw [List.length_append] at hnone
      exact List.length_eq_zero_iff.1 (by omega)
    rw [hend, hread, hsize, laid_append]
    simp [hchars, hnil]

/-- The stream of a text is the sequence of its pieces, laid one behind the other from the start
of the text. -/
theorem tokens_ofText (d : Dialect) (source : String) :
    (ofText d source).tokens = laid 0 0 (pieces d source.toList) := by
  obtain ⟨hlimit, hcut⟩ := Lexeme.readable_cut source.toList
  have hlength : (source.toList.take (Lexeme.readable source.toList).2).length =
      (Lexeme.readable source.toList).2 := by
    rw [List.length_take, Nat.min_eq_left hlimit]
  have hlaid := toList_layAll d (source.toList.drop (Lexeme.readable source.toList).2) hcut
  rw [List.take_append_drop, hlength] at hlaid
  exact hlaid

/-- The pieces of a text hold all its characters. -/
theorem charsOf_pieces (d : Dialect) (text : List Char) : charsOf (pieces d text) = text := by
  obtain ⟨hlimit, hcut⟩ := Lexeme.readable_cut text
  unfold pieces
  rw [charsOf_append, charsOf_append, charsOf_lexemes d hcut]
  split
  · simp
  · rename_i hnone
    simp [List.take_of_length_le (Nat.le_of_not_lt hnone)]

theorem lexeme_terminal_ne_eof (d : Dialect) {l : Lexeme} (h : l.form ≠ .operator .eof) :
    l.terminal d ≠ .eof := by
  obtain ⟨form, text, start, stop⟩ := l
  show form.terminal d text ≠ .eof
  cases form with
  | word =>
    simp only [Form.terminal, Form.wordTerminal]
    split
    · split <;> simp
    · simp
    · simp
  | doubleQuoted =>
    simp only [Form.terminal]
    split <;> simp
  | pipes =>
    simp only [Form.terminal]
    split <;> simp
  | operator s =>
    intro heof
    exact h (congrArg Form.operator (Terminal.symbol.inj heof))
  | _ => simp [Form.terminal]

theorem lexemes_proper {here : Location} {text : List Char} {ls : List Lexeme}
    (hcut : Lexeme.Cut here text ls) :
    ∀ l ∈ ls, l.text ≠ [] ∧ l.form ≠ .operator .eof := by
  induction hcut with
  | nil => simp
  | cons nonempty notEnd _ ih =>
    intro l hl
    rcases List.mem_cons.1 hl with rfl | hl
    · exact ⟨nonempty, notEnd⟩
    · exact ih l hl

/-- The end is the last piece; every other piece holds characters and is not the end. -/
theorem pieces_eq_append_eof (d : Dialect) (text : List Char) :
    ∃ ps, pieces d text = ps ++ [(Terminal.eof, [])] ∧ ∀ p ∈ ps, p.2 ≠ [] ∧ p.1 ≠ .eof := by
  obtain ⟨hlimit, hcut⟩ := Lexeme.readable_cut text
  refine ⟨_, rfl, fun p hp => ?_⟩
  rcases List.mem_append.1 hp with hp | hp
  · obtain ⟨l, hl, rfl⟩ := List.mem_map.1 hp
    obtain ⟨hne, hform⟩ := lexemes_proper hcut l hl
    exact ⟨hne, lexeme_terminal_ne_eof d hform⟩
  · split at hp
    · rename_i hlt
      rw [List.mem_singleton.1 hp]
      refine ⟨fun hnil => ?_, by simp⟩
      have hle := List.drop_eq_nil_iff.1 hnil
      omega
    · cases hp

/-! ## What the stream promises -/

/-- The tokens of a stream tile its source: they are numbered from zero, the first starts at the
first character and each other one where the token in front of it ends, none but the last is
empty, each holds exactly the characters of its span, and the last one is the only end of the
text. -/
structure Tiles (s : TokenStream) : Prop where
  index : ∀ (i : Nat) (t : Token), s.tokens[i]? = some t → t.index = i
  first : ∀ t : Token, s.tokens[0]? = some t → t.span.start = 0
  adjoin : ∀ (i : Nat) (t u : Token), s.tokens[i]? = some t → s.tokens[i + 1]? = some u →
    u.span.start = t.span.stop
  nonempty : ∀ (i : Nat) (t : Token), s.tokens[i]? = some t → i + 1 < s.size →
    t.span.start < t.span.stop
  last : s.tokens.getLast? =
    some ⟨.eof, "", ⟨s.source.length, s.source.length⟩, s.lastIndex⟩
  onlyLast : ∀ (i : Nat) (t : Token), s.tokens[i]? = some t → i + 1 < s.size → t.kind ≠ .eof
  inside : ∀ t ∈ s.tokens, t.span.stop ≤ s.source.length
  text : ∀ t ∈ s.tokens, t.text = String.ofList (t.span.extract s.source.toList)
  whole : String.join (s.tokens.map Token.text) = s.source

/-- The tokens are pieces of the source, laid one behind the other, with the end as the last one
and the only empty one. -/
def IsLaid (s : TokenStream) : Prop :=
  ∃ ps, s.tokens = laid 0 0 (ps ++ [(Terminal.eof, [])]) ∧ charsOf ps = s.source.toList ∧
    ∀ p ∈ ps, p.2 ≠ [] ∧ p.1 ≠ .eof

theorem isLaid_ofText (d : Dialect) (source : String) : (ofText d source).IsLaid := by
  obtain ⟨ps, hps, hproper⟩ := pieces_eq_append_eof d source.toList
  refine ⟨ps, ?_, ?_, hproper⟩
  · rw [tokens_ofText, hps]
  · have hchars := charsOf_pieces d source.toList
    rw [hps, charsOf_append, charsOf_cons, charsOf_nil, List.append_nil, List.append_nil] at hchars
    exact hchars

section Laid

variable {ps : List (Terminal × List Char)} {t : Token} {k : Nat}

/-- A token is one of the pieces, behind the characters of those in front of it. -/
theorem exists_of_getElem?_laid (h : (laid 0 0 ps)[k]? = some t) :
    ∃ p, ps[k]? = some p ∧
      t = ⟨p.1, String.ofList p.2, ⟨(charsOf (ps.take k)).length,
        (charsOf (ps.take k)).length + p.2.length⟩, k⟩ := by
  rw [getElem?_laid] at h
  obtain ⟨p, hp, rfl⟩ := Option.map_eq_some_iff.1 h
  refine ⟨p, hp, ?_⟩
  have htake : ps.take (k + 1) = ps.take k ++ [p] := by
    rw [List.take_add_one, hp, Option.toList_some]
  rw [htake, charsOf_append, List.length_append]
  simp

theorem adjoin_of_laid {u : Token} (ht : (laid 0 0 ps)[k]? = some t)
    (hu : (laid 0 0 ps)[k + 1]? = some u) : u.span.start = t.span.stop := by
  rw [getElem?_laid] at ht hu
  obtain ⟨p, -, rfl⟩ := Option.map_eq_some_iff.1 ht
  obtain ⟨q, -, rfl⟩ := Option.map_eq_some_iff.1 hu
  rfl

/-- The span of a token cuts its own characters out of those of all the pieces. -/
theorem extract_of_mem_laid (h : t ∈ laid 0 0 ps) :
    t.text = String.ofList (t.span.extract (charsOf ps)) ∧
      t.span.stop ≤ (charsOf ps).length := by
  obtain ⟨k, hk⟩ := List.getElem?_of_mem h
  obtain ⟨p, hp, rfl⟩ := exists_of_getElem?_laid hk
  have hsplit : charsOf ps = charsOf (ps.take k) ++ (p.2 ++ charsOf (ps.drop (k + 1))) := by
    obtain ⟨hlt, rfl⟩ := List.getElem?_eq_some_iff.1 hp
    rw [← charsOf_cons, ← charsOf_append, List.getElem_cons_drop, List.take_append_drop]
  rw [hsplit]
  constructor
  · simp [Span.extract, Span.length]
  · simp only [List.length_append]
    omega

theorem join_text_laid (index start : Nat) (ps : List (Terminal × List Char)) :
    String.join ((laid index start ps).map Token.text) = String.ofList (charsOf ps) := by
  induction ps generalizing index start with
  | nil => rfl
  | cons p ps ih =>
    rw [laid, List.map_cons, String.join_cons, ih, charsOf_cons, String.ofList_append]

/-- In front of the last piece, the tokens are as proper as their pieces. -/
theorem proper_of_laid {last : Terminal × List Char} (hproper : ∀ p ∈ ps, p.2 ≠ [] ∧ p.1 ≠ .eof)
    (ht : (laid 0 0 (ps ++ [last]))[k]? = some t) (hk : k < ps.length) :
    t.span.start < t.span.stop ∧ t.kind ≠ .eof := by
  obtain ⟨p, hp, rfl⟩ := exists_of_getElem?_laid ht
  rw [List.getElem?_append_left hk] at hp
  obtain ⟨hne, hkind⟩ := hproper p (List.mem_of_getElem? hp)
  have hpos := List.length_pos_iff.2 hne
  refine ⟨?_, hkind⟩
  show (charsOf _).length < (charsOf _).length + p.2.length
  omega

end Laid

/-- A stream that is laid out of the pieces of its source tiles it. -/
theorem IsLaid.tiles {s : TokenStream} (h : s.IsLaid) : s.Tiles := by
  obtain ⟨ps, htokens, hchars, hproper⟩ := h
  have hall : charsOf (ps ++ [(Terminal.eof, [])]) = s.source.toList := by
    rw [charsOf_append, hchars]
    simp
  have hsize : s.size = ps.length + 1 := by
    rw [size, htokens, length_laid, List.length_append, List.length_singleton]
  exact {
    index := by
      intro i t ht
      rw [htokens] at ht
      obtain ⟨p, -, rfl⟩ := exists_of_getElem?_laid ht
      rfl
    first := by
      intro t ht
      rw [htokens] at ht
      obtain ⟨p, -, rfl⟩ := exists_of_getElem?_laid ht
      rfl
    adjoin := by
      intro i t u ht hu
      rw [htokens] at ht hu
      exact adjoin_of_laid ht hu
    nonempty := by
      intro i t ht hi
      rw [htokens] at ht
      exact (proper_of_laid hproper ht (by omega)).1
    last := by
      have hlength : (charsOf ps).length = s.source.length := by rw [hchars, String.length_toList]
      rw [htokens, laid_append, List.getLast?_append, lastIndex, hsize]
      simp [laid, hlength]
    onlyLast := by
      intro i t ht hi
      rw [htokens] at ht
      exact (proper_of_laid hproper ht (by omega)).2
    inside := by
      intro t ht
      rw [htokens] at ht
      have hle := (extract_of_mem_laid ht).2
      rwa [hall, String.length_toList] at hle
    text := by
      intro t ht
      rw [htokens] at ht
      have htext := (extract_of_mem_laid ht).1
      rwa [hall] at htext
    whole := by
      rw [htokens, join_text_laid, hall, String.ofList_toList] }

/-- The stream of every text, in every dialect, is a stream of that text, and tiles it. -/
theorem ofText_tiles (d : Dialect) (source : String) :
    (ofText d source).source = source ∧ (ofText d source).Tiles :=
  ⟨rfl, (isLaid_ofText d source).tiles⟩

/-! ## Tokens by their places -/

/-- Pieces that lie one behind the other leave no character out. -/
theorem exists_contains_of_laid {index start offset : Nat} (ps : List (Terminal × List Char))
    (hstart : start ≤ offset) (hstop : offset < start + (charsOf ps).length) :
    ∃ t ∈ laid index start ps, t.span.contains offset = true := by
  induction ps generalizing index start with
  | nil =>
    rw [charsOf_nil, List.length_nil] at hstop
    omega
  | cons p ps ih =>
    rw [charsOf_cons, List.length_append] at hstop
    rcases Nat.lt_or_ge offset (start + p.2.length) with hlt | hge
    · refine ⟨_, List.mem_cons_self, ?_⟩
      rw [Span.contains_iff]
      exact ⟨hstart, hlt⟩
    · obtain ⟨t, ht, hcontains⟩ := @ih (index + 1) _ hge (by omega)
      exact ⟨t, List.mem_cons_of_mem _ ht, hcontains⟩

section

variable {s : TokenStream} {t u : Token} {i j offset : Nat}

theorem IsLaid.exists_contains (h : s.IsLaid) (hlt : offset < s.charLength) :
    ∃ t ∈ s.tokens, t.span.contains offset = true := by
  obtain ⟨ps, htokens, hchars, -⟩ := h
  rw [htokens]
  refine exists_contains_of_laid _ (Nat.zero_le _) ?_
  rw [charsOf_append, hchars, List.length_append, String.length_toList]
  exact Nat.lt_of_lt_of_le hlt (by rw [charLength]; omega)

namespace Tiles

theorem stop_le_start (h : s.Tiles) (ht : s.tokens[i]? = some t) (hu : s.tokens[j]? = some u)
    (hlt : i < j) : t.span.stop ≤ u.span.start := by
  induction j generalizing u with
  | zero => exact absurd hlt (Nat.not_lt_zero i)
  | succ j ih =>
    obtain ⟨hj, -⟩ := List.getElem?_eq_some_iff.1 hu
    obtain ⟨x, hx⟩ : ∃ x, s.tokens[j]? = some x := ⟨_, List.getElem?_eq_getElem (by omega)⟩
    rw [h.adjoin j x u hx hu]
    rcases Nat.lt_succ_iff_lt_or_eq.1 hlt with hij | rfl
    · exact Nat.le_trans (ih hx hij) (Nat.le_of_lt (h.nonempty j x hx hj))
    · obtain rfl := Option.some.inj (ht.symm.trans hx)
      exact Nat.le_refl _

/-- No two tokens hold the same character. -/
theorem eq_of_contains (h : s.Tiles) (ht : t ∈ s.tokens) (hu : u ∈ s.tokens)
    (htc : t.span.contains offset = true) (huc : u.span.contains offset = true) : t = u := by
  rw [Span.contains_iff] at htc huc
  obtain ⟨i, hi⟩ := List.getElem?_of_mem ht
  obtain ⟨j, hj⟩ := List.getElem?_of_mem hu
  rcases Nat.lt_trichotomy i j with hlt | rfl | hlt
  · have hle := h.stop_le_start hi hj hlt
    omega
  · exact Option.some.inj (hi.symm.trans hj)
  · have hle := h.stop_le_start hj hi hlt
    omega

theorem size_pos (h : s.Tiles) : 0 < s.size :=
  List.length_pos_iff.2 (List.ne_nil_of_mem (List.mem_of_getLast? h.last))

theorem lastIndex_lt (h : s.Tiles) : s.lastIndex < s.size := Nat.sub_one_lt_of_lt h.size_pos

theorem get?_lastIndex (h : s.Tiles) : s.get? s.lastIndex =
    some ⟨.eof, "", ⟨s.source.length, s.source.length⟩, s.lastIndex⟩ := by
  rw [← h.last, List.getLast?_eq_getElem?]
  rfl

/-- A token holds characters and is not the end, or it is the last one. -/
theorem proper_or_last (h : s.Tiles) (ht : t ∈ s.tokens) :
    (t.span.start < t.span.stop ∧ t.kind ≠ .eof) ∨
      t = ⟨.eof, "", ⟨s.source.length, s.source.length⟩, s.lastIndex⟩ := by
  obtain ⟨i, hi⟩ := List.getElem?_of_mem ht
  have hlt : i < s.size := (List.getElem?_eq_some_iff.1 hi).1
  rcases Nat.lt_or_ge (i + 1) s.size with hbefore | hlast
  · exact .inl ⟨h.nonempty i t hi hbefore, h.onlyLast i t hi hbefore⟩
  · obtain rfl : i = s.lastIndex := by
      unfold lastIndex
      omega
    exact .inr (Option.some.inj (hi.symm.trans h.get?_lastIndex))

/-- No two tokens are in one place. -/
theorem eq_of_span_eq (h : s.Tiles) (ht : t ∈ s.tokens) (hu : u ∈ s.tokens)
    (hspan : t.span = u.span) : t = u := by
  rcases h.proper_or_last ht with ⟨hnonempty, -⟩ | htlast
  · have hcontains : t.span.contains t.span.start = true :=
      (Span.contains_iff _ _).2 ⟨Nat.le_refl _, hnonempty⟩
    exact h.eq_of_contains ht hu hcontains (hspan ▸ hcontains)
  · rcases h.proper_or_last hu with ⟨hnonempty, -⟩ | hulast
    · rw [← hspan, htlast] at hnonempty
      exact absurd hnonempty (Nat.lt_irrefl _)
    · rw [htlast, hulast]

theorem start_le (h : s.Tiles) (ht : t ∈ s.tokens) : t.span.start ≤ s.charLength := by
  rcases h.proper_or_last ht with ⟨hnonempty, -⟩ | rfl
  · exact Nat.le_trans (Nat.le_of_lt hnonempty) (h.inside t ht)
  · exact Nat.le_refl _

/-- A token that holds a character is not the end of the text. -/
theorem kind_ne_eof (h : s.Tiles) (ht : t ∈ s.tokens) (hcontains : t.span.contains offset = true) :
    t.kind ≠ .eof := by
  rcases h.proper_or_last ht with ⟨-, hkind⟩ | rfl
  · exact hkind
  · have hheld := (Span.contains_iff _ _).1 hcontains
    simp only at hheld
    omega

/-- The index at a character is that of the token that holds it. -/
theorem indexAt_of_contains (h : s.Tiles) (ht : t ∈ s.tokens)
    (hcontains : t.span.contains offset = true) : s.indexAt offset = t.index := by
  have hsome : (s.tokens.find? fun u => u.span.contains offset).isSome = true :=
    List.find?_isSome.2 ⟨t, ht, hcontains⟩
  obtain ⟨u, hu⟩ := Option.isSome_iff_exists.1 hsome
  have hheld := List.find?_some hu
  obtain rfl : u = t := h.eq_of_contains (List.mem_of_find?_eq_some hu) ht hheld hcontains
  unfold indexAt
  rw [hu]

/-- Where there is no character, the index is that of the end. -/
theorem indexAt_of_le (h : s.Tiles) (hle : s.charLength ≤ offset) :
    s.indexAt offset = s.lastIndex := by
  have hnone : s.tokens.find? (fun t => t.span.contains offset) = none := by
    refine List.find?_eq_none.2 fun t ht hcontains => ?_
    have hstop : t.span.stop ≤ s.charLength := h.inside t ht
    have hheld := (Span.contains_iff _ _).1 hcontains
    omega
  have hbehind : s.tokens.findIdx? (fun t => decide (offset < t.span.start)) = none := by
    refine List.findIdx?_eq_none_iff.2 fun t ht => decide_eq_false ?_
    exact Nat.not_lt.2 (Nat.le_trans (h.start_le ht) hle)
  unfold indexAt
  rw [hnone, hbehind]

end Tiles

end

end SqlCompletion.TokenStream
