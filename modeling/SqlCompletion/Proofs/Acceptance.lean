import SqlCompletion.Proofs.Isolation
import SqlCompletion.Proofs.Viability
import SqlCompletion.Proofs.Wording
set_option autoImplicit false

/-!
# Accepting a suggestion

A keyword that is suggested can be typed. Behind a blank, its text is read as the words that it was
made from (`Fresh.kinds_append`), and these are the words of a candidate, with all of what must
follow it or alone (`Offers`). The candidate goes on from what was typed to something that the
grammar derives (`Fresh.continues`).

So a text stays recognizable when a suggestion at its end is accepted, up to the reading of one word
(`Engine.complete_recognizable`). The grammar has two terminals for the word `NOT`, and a suggestion
shows both of them as `NOT`, while the modes of the dialect decide which of them is read
(`Terminal.reread`). A suggestion is misread (`Misread`) where it was made for the other one, and it
is misread only there:

* without the mode, if it was made for `NOT2` and `NOT` is no candidate;
* with the mode, if `NOT` is one of its words, unless `NOT` is the only one and `NOT2` is a
  candidate too.

A suggestion that is misread may be wrong: behind a plus sign `NOT` is suggested, and the grammar
has nothing that goes on so (`not_after_plus_unrecognizable`). That `NOT2` is shown as `NOT`
whatever the modes are is meant to be so.

The text is one statement that is empty or ends behind a blank (`Fresh`). In front of a suggestion
that touches a word, the two would be read as one word, and nothing is said of that. Nor is anything
said of the items that are no keywords.
-/

namespace SqlCompletion

open Lexeme (Scans Ends chars formBehind spaced)

/-! ## The terminals of a text -/

namespace TokenStream

/-- The visible terminals of a stream, but for the end. -/
def kinds (s : TokenStream) : List Terminal := s.kindsBefore s.lastIndex

/-- The visible ones of some terminals. -/
def shownKinds (ps : List (Terminal × List Char)) : List Terminal :=
  (ps.map Prod.fst).filter fun t => t.channel != .hidden

theorem shownKinds_append (ps qs : List (Terminal × List Char)) :
    shownKinds (ps ++ qs) = shownKinds ps ++ shownKinds qs := by
  unfold shownKinds
  rw [List.map_append, List.filter_append]

theorem kinds_laid (index start : Nat) (ps : List (Terminal × List Char)) :
    ((laid index start ps).filter fun t => !t.isHidden).map Token.kind = shownKinds ps := by
  induction ps generalizing index start with
  | nil => rfl
  | cons p ps ih =>
    have hrest := ih (index + 1) (start + p.2.length)
    unfold shownKinds at hrest ⊢
    rw [laid, List.filter_cons, List.map_cons, List.filter_cons]
    cases hchannel : p.1.channel with
    | hidden => simpa [Token.isHidden, Token.channel, hchannel] using hrest
    | visible => simpa [Token.isHidden, Token.channel, hchannel] using hrest

section

variable {d : Dialect} {text : String} {ps : List (Terminal × List Char)}

theorem lastIndex_of_pieces (h : pieces d text.toList = ps ++ [(Terminal.eof, [])]) :
    (ofText d text).lastIndex = ps.length := by
  rw [lastIndex, size, tokens_ofText, h, length_laid, List.length_append]
  rfl

theorem kinds_of_pieces (h : pieces d text.toList = ps ++ [(Terminal.eof, [])]) :
    (ofText d text).kinds = shownKinds ps := by
  have hlength : ps.length = (laid 0 0 ps).length := (length_laid 0 0 ps).symm
  rw [kinds, lastIndex_of_pieces h, kindsBefore_ofText, tokens_ofText, h, laid_append, hlength,
    List.take_left, kinds_laid]

end

end TokenStream

/-! ## Typing behind a blank -/

namespace Lexeme

theorem isBlank_of_mem_blankMarks : ∀ c ∈ blankMarks, Text.isBlank c = true :=
  List.all_eq_true.1 (by decide)

/-- A blank is one character, or a carriage return with the line feed behind it. -/
theorem first_of_blankMark {c : Char} (hc : c ∈ blankMarks) (after : Option Form)
    (rest : List Char) :
    first after c rest =
      .ok (.blank, if c = '\r' ∧ rest.head? = some '\n' then 2 else 1) := by
  simp only [blankMarks, List.mem_cons, List.not_mem_nil, or_false] at hc
  rcases hc with rfl | rfl | rfl | rfl | rfl | rfl
  · rfl
  · rfl
  · rfl
  · simp only [first, beq_iff_eq, true_and]
    rfl
  · rfl
  · rfl

theorem Ends.unread_ne_nil {after : Option Form} {c : Char} {rest unread : List Char}
    {saved : List (Form × List Char)} (h : Ends after (c :: rest) saved unread) : unread ≠ [] := by
  cases h with
  | @fault _ _ _ fault found left =>
    have hbroken := first_possible after c rest
    rw [found] at hbroken
    rintro rfl
    cases hbroken with
    | point => cases left
    | quote => cases left
    | letter quote rest => simp [Fault.salvage] at left
    | comment => simp [Fault.salvage] at left

/-- Lexemes of which the last one is a blank stay the same when more is typed. -/
theorem scans_behind_blank {ls : List (Form × List Char)} {form : Form} {b z : List Char}
    (h : Scans none (ls ++ [(form, b)]) [])
    (hform : form = .blank ∨ form = .operator .whitespace) (hz : z.head? ≠ some '\n') :
    Scans none (ls ++ [(form, b)]) z := by
  obtain ⟨hls, hlast⟩ := scans_append.1 h
  cases hlast with
  | @cons _ _ c v _ _ head _ =>
    have hpossible := first_possible (formBehind none ls) c (v ++ (chars [] ++ []))
    rw [head] at hpossible
    have hc : c ∈ blankMarks := hpossible.blank hform
    refine scans_append.2 ⟨?_, .cons ?_ (.nil _ _)⟩
    · have hchars : chars [(form, c :: v)] ++ z = chars [(form, c :: v)] ++ [] ++ z := by simp
      rw [hchars]
      exact hls.alike (alike_append (by simp) (isBlank_of_mem_blankMarks c hc) z)
    · rw [first_of_blankMark hc] at head ⊢
      rw [← head]
      cases v with
      | nil => simp [hz]
      | cons x v => simp

end Lexeme

/-- A text that a new word can be typed behind: it is one statement, and it is empty or the last
token in front of the end is a blank. -/
structure Fresh (d : Dialect) (text : String) : Prop where
  single : ∀ t ∈ (TokenStream.ofText d text).tokens, t.kind ≠ .symbol .semicolon
  blank : text = "" ∨ ∃ t ∈ (TokenStream.ofText d text).tokens.dropLast.getLast?,
    t.kind = .symbol .whitespace

instance (d : Dialect) (text : String) : Decidable (Fresh d text) :=
  decidable_of_iff ((∀ t ∈ (TokenStream.ofText d text).tokens, t.kind ≠ .symbol .semicolon) ∧
      (text = "" ∨ ∃ t ∈ (TokenStream.ofText d text).tokens.dropLast.getLast?,
        t.kind = .symbol .whitespace))
    ⟨fun h => ⟨h.1, h.2⟩, fun h => ⟨h.single, h.blank⟩⟩

section

variable {d : Dialect} {text : String}

/-- The last piece in front of the end is a blank. -/
theorem Fresh.exists_last (h : Fresh d text) {ps : List (Terminal × List Char)}
    (hpieces : TokenStream.pieces d text.toList = ps ++ [(Terminal.eof, [])]) :
    ps = [] ∨ ∃ front b, ps = front ++ [(.symbol .whitespace, b)] := by
  rcases h.blank with rfl | ⟨t, ht, hkind⟩
  · have hempty : TokenStream.pieces d "".toList = [] ++ [(Terminal.eof, [])] := rfl
    exact .inl (List.append_cancel_right (hpieces.symm.trans hempty))
  · right
    rw [TokenStream.tokens_ofText, hpieces, TokenStream.laid_append] at ht
    rcases List.eq_nil_or_concat ps with rfl | ⟨front, p, hps⟩
    · cases ht
    · obtain ⟨kind, b⟩ := p
      rw [List.concat_eq_append] at hps
      subst hps
      rw [TokenStream.laid, TokenStream.laid, List.dropLast_concat, TokenStream.laid_append,
        TokenStream.laid, TokenStream.laid, List.getLast?_concat] at ht
      obtain rfl := Option.some.inj ht
      exact ⟨front, b, by rw [← hkind]⟩

/-- The lexemes of the text stay the same when more is typed, unless that starts with a line
feed. -/
theorem Fresh.exists_scans (h : Fresh d text) :
    ∃ ls, text.toList = chars ls ∧ ∀ z : List Char, z.head? ≠ some '\n' → Scans none ls z := by
  obtain ⟨ls, rest, saved, unread, htext, hscans, hends⟩ := Lexeme.exists_scans none text.toList
  have hpieces := TokenStream.pieces_of_scans d hscans hends
  rw [← htext] at hpieces
  have hlast := h.exists_last hpieces
  cases rest with
  | nil =>
    cases hends with
    | whole =>
      rw [List.append_nil] at htext hlast
      refine ⟨ls, htext, fun z hz => ?_⟩
      have hleft : TokenStream.leftover [] = [] := rfl
      rw [hleft, List.append_nil] at hlast
      rcases hlast with hnil | ⟨front, b, hfront⟩
      · obtain rfl : ls = [] := List.map_eq_nil_iff.1 hnil
        exact .nil _ _
      · obtain ⟨ms, others, rfl, -, hothers⟩ := List.map_eq_append_iff.1 hfront
        obtain ⟨l, rfl, hl⟩ := List.map_eq_singleton_iff.1 hothers
        obtain ⟨form, text⟩ := l
        obtain ⟨hkind, -⟩ := Prod.mk.inj hl
        refine Lexeme.scans_behind_blank hscans ?_ hz
        rcases TokenStream.form_of_terminal hkind with hform | hform
        · exact .inr hform
        · left
          simpa [TokenStream.symbolForms] using hform
  | cons c rest =>
    -- What a fault leaves unread is the last piece, and it is no blank.
    have hunread : TokenStream.leftover unread = [(Terminal.invalid, unread)] :=
      if_neg hends.unread_ne_nil
    rw [hunread] at hlast
    rcases hlast with hnil | ⟨front, b, hfront⟩
    · simp at hnil
    · have hsame := (List.append_inj' hfront rfl).2
      cases hsame

/-! ## The words of a suggestion -/

/-- The words are spellings of the keywords, one by one. -/
def Spelled (words : List String) (ks : List Keyword) : Prop :=
  List.Forall₂ (fun w k => w ∈ Keyword.spellings k) words ks

theorem Spelled.isSpelling {words : List String} {ks : List Keyword} (h : Spelled words ks) :
    ∀ w ∈ words, Keyword.isSpelling w = true := by
  induction h with
  | nil => simp
  | @cons w k words ks hw _ ih =>
    intro u hu
    rcases List.mem_cons.1 hu with rfl | hu
    · exact Keyword.isSpelling_spellings k (Keyword.mem_all k) u hw
    · exact ih u hu

theorem Spelled.wordTerminals (d : Dialect) (uppercase : Bool) {words : List String}
    {ks : List Keyword} (h : Spelled words ks) :
    words.map (fun w => Form.wordTerminal d (Phrase.fold uppercase w).toList) =
      ks.map (Keyword.reading d) := by
  induction h with
  | nil => rfl
  | cons hw _ ih => rw [List.map_cons, List.map_cons, Phrase.wordTerminal_fold d uppercase hw, ih]

theorem shownKinds_spaced (d : Dialect) (ws : List (List Char)) :
    TokenStream.shownKinds (TokenStream.piecesOf d (spaced ws)) =
      ws.map (Form.wordTerminal d) := by
  induction ws with
  | nil => rfl
  | cons w ws ih =>
    have hvisible : (Form.wordTerminal d w).channel = .visible := by
      unfold Form.wordTerminal
      split
      · split <;> rfl
      · rfl
      · rfl
    have hblank : (Terminal.symbol .whitespace).channel = .hidden := rfl
    have hcons : spaced (w :: ws) = [(Form.word, w), (Form.blank, [' '])] ++ spaced ws := rfl
    rw [hcons, TokenStream.piecesOf_append, TokenStream.shownKinds_append, ih, List.map_cons]
    simp [TokenStream.piecesOf, TokenStream.shownKinds, Form.terminal, hvisible, hblank]

theorem head?_spaced {ws : List (List Char)} (h : ∀ w ∈ ws, Lexeme.IsWord w) :
    (chars (spaced ws)).head? ≠ some '\n' := by
  cases ws with
  | nil => simp [spaced]
  | cons w ws =>
    have hw := h w List.mem_cons_self
    cases w with
    | nil => exact hw.elim
    | cons c v =>
      rw [Lexeme.chars_spaced, List.flatMap_cons, List.cons_append, List.cons_append,
        List.head?_cons]
      rintro hc
      obtain rfl := Option.some.inj hc
      exact absurd hw.1 (by decide)

/-- Typed behind a blank, the words of a suggestion are read as their keywords. -/
theorem Fresh.kinds_append (h : Fresh d text) (uppercase : Bool) {words : List String}
    {ks : List Keyword} (hwords : Spelled words ks) (hne : words ≠ []) :
    (TokenStream.ofText d
        (text ++ Phrase.fold uppercase (" ".intercalate words) ++ " ")).kinds =
      (TokenStream.ofText d text).kinds ++ ks.map (Keyword.reading d) := by
  obtain ⟨ls, htext, hls⟩ := h.exists_scans
  have hspelling := hwords.isSpelling
  generalize hws : words.map (fun w => (Phrase.fold uppercase w).toList) = ws
  have hisWord : ∀ w ∈ ws, Lexeme.IsWord w := by
    intro w hw
    rw [← hws] at hw
    obtain ⟨u, hu, rfl⟩ := List.mem_map.1 hw
    exact Phrase.isWord_fold uppercase (hspelling u hu)
  have htyped : (text ++ Phrase.fold uppercase (" ".intercalate words) ++ " ").toList =
      chars (ls ++ spaced ws) ++ [] := by
    have hphrase := Phrase.toList_fold_intercalate uppercase hne fun w hw =>
      (Keyword.toList_of_isSpelling (hspelling w hw)).1
    have hblank : " ".toList = [' '] := rfl
    rw [String.toList_append, String.toList_append, hblank, List.append_assoc, hphrase,
      List.append_nil, Lexeme.chars_append, Lexeme.chars_spaced, ← hws, List.flatMap_map, htext]
  have hscans : Scans none (ls ++ spaced ws) [] := by
    refine Lexeme.scans_append.2 ⟨hls _ ?_, Lexeme.scans_spaced hisWord _ _⟩
    rw [List.append_nil]
    exact head?_spaced hisWord
  have hbefore := TokenStream.pieces_of_scans d (hls [] (by simp)) .whole
  have hafter := TokenStream.pieces_of_scans d hscans .whole
  rw [List.append_nil, ← htext] at hbefore
  rw [← htyped] at hafter
  have hkinds : ws.map (Form.wordTerminal d) = ks.map (Keyword.reading d) := by
    rw [← hws, List.map_map]
    exact hwords.wordTerminals d uppercase
  have hleft : TokenStream.leftover [] = [] := rfl
  rw [TokenStream.kinds_of_pieces hbefore, TokenStream.kinds_of_pieces hafter, hleft,
    List.append_nil, List.append_nil, List.append_nil, List.append_nil, TokenStream.piecesOf_append,
    TokenStream.shownKinds_append, shownKinds_spaced, hkinds]

/-! ## The caret at the end -/

theorem TokenStream.indexAt_length (d : Dialect) (text : String) :
    (ofText d text).indexAt text.length = (ofText d text).lastIndex :=
  (isLaid_ofText d text).tiles.indexAt_of_le (Nat.le_refl _)

/-- For a caret at the end, candidates are collected behind all that was typed. -/
theorem Fresh.kindsBefore_caret (h : Fresh d text) :
    (TokenStream.ofText d text).kindsBefore
        (Caret.index (TokenStream.ofText d text) text.length) =
      (TokenStream.ofText d text).kinds := by
  obtain ⟨ps, hpieces, -⟩ := TokenStream.pieces_eq_append_eof d text.toList
  unfold Caret.index
  dsimp only
  rw [TokenStream.indexAt_length]
  split
  · rename_i hback
    obtain ⟨hpos, -⟩ := hback
    rw [TokenStream.lastIndex_of_pieces hpieces] at hpos ⊢
    rcases h.exists_last hpieces with rfl | ⟨front, b, rfl⟩
    · exact absurd hpos (Nat.lt_irrefl 0)
    · -- The caret stands in front of the blank, which is not visible.
      have hfront : (front ++ [(Terminal.symbol .whitespace, b)]).length - 1 =
          (TokenStream.laid 0 0 front).length := by simp
      rw [TokenStream.kinds_of_pieces hpieces, hfront, TokenStream.kindsBefore_ofText,
        TokenStream.tokens_ofText, hpieces, List.append_assoc, TokenStream.laid_append,
        List.take_left, TokenStream.kinds_laid, TokenStream.shownKinds_append]
      exact (List.append_nil _).symm
  · rfl

end

/-! ## What is shown of the candidates -/

/-- The keyword whose word a suggestion shows for the terminal. -/
def Terminal.word? : Terminal → Option Keyword
  | .keyword k => some k
  | .symbol .not2 => some .NOT
  | .symbol _ => none

/-- The terminal that is read where the word for this one was typed. -/
def Terminal.reread (d : Dialect) (t : Terminal) : Terminal :=
  (t.word?.map (Keyword.reading d)).getD t

theorem Terminal.exists_word {t : Terminal} (h : t.isIgnored = false) : ∃ k, t.word? = some k := by
  cases t with
  | keyword k => exact ⟨k, rfl⟩
  | symbol s =>
    cases s with
    | not2 => exact ⟨.NOT, rfl⟩
    | _ => cases h

theorem Terminal.eq_of_word? {t : Terminal} {k : Keyword} (h : t.word? = some k) :
    t = .keyword k ∨ t = .symbol .not2 := by
  cases t with
  | keyword j => exact .inl (congrArg Terminal.keyword (Option.some.inj h))
  | symbol s =>
    cases s with
    | not2 => exact .inr rfl
    | _ => cases h

theorem Terminal.exists_keywords {ts : List Terminal} (h : ∀ t ∈ ts, t.isKeyword = true) :
    ∃ ks : List Keyword, ts = ks.map Terminal.keyword := by
  induction ts with
  | nil => exact ⟨[], rfl⟩
  | cons t ts ih =>
    obtain ⟨ks, rfl⟩ := ih fun u hu => h u (List.mem_cons_of_mem t hu)
    cases t with
    | keyword k => exact ⟨k :: ks, rfl⟩
    | symbol s => cases h (.symbol s) List.mem_cons_self

@[simp] theorem Terminal.word?_reread (d : Dialect) (t : Terminal) :
    (t.reread d).word? = t.word? := by
  cases hword : t.word? with
  | none => simp [reread, hword]
  | some k =>
    simp only [reread, hword, Option.map_some, Option.getD_some, Keyword.reading]
    split
    · rename_i hnot
      rw [hnot.1]
      rfl
    · rfl

/-- The dialect reads a word in one way. -/
theorem Terminal.reread_reread (d : Dialect) (t : Terminal) :
    (t.reread d).reread d = t.reread d := by
  rw [reread, word?_reread]
  cases hword : t.word? <;> simp [reread, hword]

/-- Only the word `NOT` is read as another terminal than the one it was shown for. -/
theorem Terminal.reread_cases {d : Dialect} {t : Terminal} (h : t.reread d ≠ t) :
    (d.has .highNotPrecedence = false ∧ t = .symbol .not2 ∧ t.reread d = .keyword .NOT) ∨
      (d.has .highNotPrecedence = true ∧ t = .keyword .NOT ∧ t.reread d = .symbol .not2) := by
  cases hword : t.word? with
  | none => simp [reread, hword] at h
  | some k =>
    rcases eq_of_word? hword with rfl | rfl
    · by_cases hnot : k = .NOT ∧ d.has .highNotPrecedence = true
      · obtain ⟨rfl, hmode⟩ := hnot
        exact .inr ⟨hmode, rfl, if_pos ⟨rfl, hmode⟩⟩
      · exact absurd (if_neg hnot) h
    · cases hmode : d.has .highNotPrecedence with
      | true => exact absurd (if_pos ⟨rfl, hmode⟩) h
      | false => exact .inl ⟨rfl, rfl, if_neg (by simp [hmode])⟩

theorem reread_of_words (d : Dialect) {ts : List Terminal} {ks : List Keyword}
    (h : ts.map Terminal.word? = ks.map some) :
    ts.map (Terminal.reread d) = ks.map (Keyword.reading d) := by
  induction ts generalizing ks with
  | nil =>
    obtain rfl : ks = [] := by simpa using h.symm
    rfl
  | cons t ts ih =>
    cases ks with
    | nil => cases h
    | cons k ks =>
      obtain ⟨hword, hrest⟩ := List.cons.inj h
      rw [List.map_cons, List.map_cons, ih hrest, Terminal.reread, hword]
      rfl

/-- What is shown is a candidate, or `NOT` in the place of `NOT2`. -/
theorem Phrase.mem_mergeNot {tokens : List (Terminal × List Terminal)}
    {p : Terminal × List Terminal} (h : p ∈ mergeNot tokens) :
    (p ∈ tokens ∧ p.1 ≠ .symbol .not2) ∨
      (p.1 = .keyword .NOT ∧ (.symbol .not2, p.2) ∈ tokens) := by
  unfold mergeNot at h
  split at h
  · rename_i hnone
    refine .inl ⟨h, fun hnot => ?_⟩
    have hne := List.lookup_eq_none_iff.1 hnone p h
    simp [hnot] at hne
  · rename_i following hfound
    rcases mem_assocInsert h with rfl | h
    · exact .inr ⟨rfl, mem_of_lookup hfound⟩
    · obtain ⟨hmem, hne⟩ := List.mem_filter.1 h
      exact .inl ⟨hmem, by simpa using hne⟩

namespace Mysql

/-- What must follow a terminal in its place is the parenthesis of a function call or some keywords,
and nothing must follow `NOT2`. -/
def followedByWords (p : Terminal × List Element) : Bool :=
  (followingTerminals p.2).head? == some (.symbol .openPar) ||
    ((followingTerminals p.2).all Terminal.isKeyword &&
      (p.1 != .symbol .not2 || (followingTerminals p.2).isEmpty))

theorem followedByWords_places : ∀ r, ((body r).places []).all followedByWords = true :=
  Rule.forall_of_ofNat (by decide +kernel)

theorem followedByWords_of_occurs {v : Version} {input : List Terminal} {t : Terminal}
    {following : List Terminal} (h : Occurs (grammar.Expects v input) t following) :
    ∃ follow, followingTerminals follow = following ∧ followedByWords (t, follow) = true := by
  obtain ⟨chain, follow, hexpects, -, rfl⟩ := h
  refine ⟨follow, rfl, ?_⟩
  rcases Grammar.Reaches.place hexpects with ⟨-, hnone⟩ | ⟨r, inner, -, hbody, hplace⟩
  · rw [Element.places] at hnone
    cases hnone
  · obtain rfl := Option.some.inj hbody
    exact List.all_eq_true.1 (followedByWords_places r) _ hplace

/-- The candidates that are shown stand for words, and so does what must follow them. -/
theorem candidate_words {v : Version} {s : TokenStream} {caretIndex : Nat} {t : Terminal}
    {following : List Terminal} (h : (t, following) ∈ (collect grammar v s caretIndex).tokens)
    (hcall : following.head? ≠ some (.symbol .openPar)) :
    (∃ k, t.word? = some k) ∧ (∃ ks : List Keyword, following = ks.map Terminal.keyword) ∧
      (t = .symbol .not2 → following = []) := by
  have hbacked := collect_backed grammar v s caretIndex
  obtain ⟨hkept, occurring, hoccurs, hagreed⟩ :=
    hbacked.tokens t following (lookup_of_mem hbacked.distinct.terminals h)
  refine ⟨Terminal.exists_word hkept, ?_⟩
  rcases hagreed with rfl | ⟨rfl, -⟩
  · obtain ⟨follow, rfl, hwords⟩ := followedByWords_of_occurs hoccurs
    rw [followedByWords, Bool.or_eq_true, beq_iff_eq, Bool.and_eq_true, List.all_eq_true] at hwords
    obtain hopen | ⟨hkeywords, hlast⟩ := hwords
    · exact absurd hopen hcall
    · refine ⟨?_, fun hnot => ?_⟩
      · exact Terminal.exists_keywords hkeywords
      · simpa [hnot] using hlast
  · exact ⟨⟨[], rfl⟩, fun _ => rfl⟩

end Mysql

theorem map_word?_keyword (ks : List Keyword) :
    (ks.map Terminal.keyword).map Terminal.word? = ks.map some := by
  rw [List.map_map]
  rfl

theorem spelled_spelling (ks : List Keyword) : Spelled (ks.map Keyword.spelling) ks := by
  induction ks with
  | nil => exact .nil
  | cons k ks ih => exact .cons List.mem_cons_self ih

/-- The terminals that a keyword is suggested for: a candidate with all of what must follow it, or
the candidate alone. The words of the keyword are spellings of theirs. -/
structure Offers (uppercase : Bool) (collected : Candidates) (k : String)
    (offered : List Terminal) : Prop where
  candidate : ∃ t following, (t, following) ∈ collected.tokens ∧
    (offered = t :: following ∨ offered = [t])
  words : ∃ words ks, k = Phrase.fold uppercase (" ".intercalate words) ∧ Spelled words ks ∧
    offered.map Terminal.word? = ks.map some

namespace Offers

variable {uppercase : Bool} {collected : Candidates} {k : String} {t : Terminal}

theorem mem_terminals (h : Offers uppercase collected k [t]) : t ∈ collected.terminals := by
  obtain ⟨u, following, hmem, hcase⟩ := h.candidate
  obtain rfl : t = u := by
    rcases hcase with heq | heq <;> exact (List.cons.inj heq).1
  exact List.mem_map.2 ⟨_, hmem, rfl⟩

/-- Where the reading of the dialect is a candidate too, the keyword may as well be suggested for
that one. -/
theorem reread {d : Dialect} (h : Offers uppercase collected k [t])
    (hmem : t.reread d ∈ collected.terminals) : Offers uppercase collected k [t.reread d] where
  candidate := by
    obtain ⟨⟨u, following⟩, hu, hread⟩ := List.mem_map.1 hmem
    obtain rfl : u = t.reread d := hread
    exact ⟨_, following, hu, .inr rfl⟩
  words := by
    obtain ⟨words, ks, hk, hspelled, hwords⟩ := h.words
    refine ⟨words, ks, hk, hspelled, ?_⟩
    rwa [List.map_singleton, Terminal.word?_reread]

end Offers

/-- Every keyword that is suggested is suggested for some candidate. `NOT2` is offered alone. -/
theorem exists_offered {uppercase : Bool} {v : Version} {s : TokenStream} {caretIndex : Nat}
    {k : String}
    (hk : k ∈ Phrase.ofCandidates uppercase (collect Mysql.grammar v s caretIndex).tokens) :
    ∃ offered, Offers uppercase (collect Mysql.grammar v s caretIndex) k offered ∧
      (.symbol .not2 ∈ offered → offered = [.symbol .not2]) := by
  obtain ⟨⟨shown, following⟩, hshown, hk⟩ := List.mem_flatMap.1 hk
  unfold Phrase.ofCandidate Phrase.text? at hk
  dsimp only at hk
  split at hk
  · cases hk
  · rename_i text htext
    split at htext
    · cases htext
    · rename_i hcall
      obtain rfl := Option.some.inj htext
      -- The candidate that is shown, and the keyword that it is shown as.
      obtain ⟨t, k₀, hmem, hword, rfl⟩ : ∃ t k₀,
          (t, following) ∈ (collect Mysql.grammar v s caretIndex).tokens ∧ t.word? = some k₀ ∧
            shown = .keyword k₀ := by
        rcases Phrase.mem_mergeNot hshown with ⟨hmem, hne⟩ | ⟨hnot, hmem⟩
        · obtain ⟨⟨k₀, hword⟩, -⟩ := Mysql.candidate_words hmem hcall
          exact ⟨shown, k₀, hmem, hword, (Terminal.eq_of_word? hword).resolve_right hne⟩
        · exact ⟨_, .NOT, hmem, rfl, hnot⟩
      obtain ⟨-, ⟨ks, rfl⟩, hlast⟩ := Mysql.candidate_words hmem hcall
      have halone : ∀ rest : List Terminal, rest <+: ks.map Terminal.keyword →
          .symbol .not2 ∈ t :: rest → t :: rest = [.symbol .not2] := by
        intro rest hrest hnot
        rcases List.mem_cons.1 hnot with rfl | hnot
        · rw [hlast rfl, List.prefix_nil] at hrest
          rw [hrest]
        · obtain ⟨j, -, hj⟩ := List.mem_map.1 (hrest.mem hnot)
          cases hj
      obtain ⟨text, htext, rfl⟩ := List.mem_map.1 hk
      rcases List.mem_cons.1 htext with rfl | hsynonym
      · refine ⟨t :: ks.map Terminal.keyword, ⟨⟨t, _, hmem, .inl rfl⟩,
          (k₀ :: ks).map Keyword.spelling, k₀ :: ks, ?_, spelled_spelling _, ?_⟩,
          halone _ (List.prefix_refl _)⟩
        · simp [Terminal.phrase, Function.comp_def]
        · rw [List.map_cons, hword, map_word?_keyword]
          rfl
      · refine ⟨[t], ⟨⟨t, _, hmem, .inr rfl⟩, [text], [k₀], rfl,
          .cons (List.mem_cons_of_mem _ hsynonym) .nil, ?_⟩, halone _ List.nil_prefix⟩
        rw [List.map_cons, hword]
        rfl

/-! ## Accepting a suggestion -/

/-- What can be seen of a text goes on to something that the grammar derives. -/
def Recognizable (d : Dialect) (text : String) : Prop :=
  ∃ w, Mysql.grammar.Derives d.version (.rule .query) ((TokenStream.ofText d text).kinds ++ w)

/-- The candidates at the end of a text. -/
def candidatesAtEnd (d : Dialect) (text : String) : Candidates :=
  collect Mysql.grammar d.version (.ofText d text) (Caret.index (.ofText d text) text.length)

/-- The word `NOT` was offered in the reading that the dialect does not give it. Where it is all
that was offered, this reading is a candidate and the dialect's is none. -/
inductive Misread (d : Dialect) (collected : Candidates) : List Terminal → Prop
  | low (mode : d.has .highNotPrecedence = false) (present : .symbol .not2 ∈ collected.terminals)
      (absent : .keyword .NOT ∉ collected.terminals) : Misread d collected [.symbol .not2]
  | high {offered : List Terminal} (mode : d.has .highNotPrecedence = true)
      (mem : .keyword .NOT ∈ offered)
      (absent : offered = [.keyword .NOT] → .symbol .not2 ∉ collected.terminals) :
      Misread d collected offered

/-- What is offered goes on from what was typed. -/
theorem Fresh.continues {d : Dialect} {text : String} (h : Fresh d text) {uppercase : Bool}
    {k : String} {offered : List Terminal}
    (hoffers : Offers uppercase (candidatesAtEnd d text) k offered) :
    Mysql.grammar.Continues d.version (TokenStream.ofText d text).kinds offered := by
  obtain ⟨t, following, hmem, hcase⟩ := hoffers.candidate
  have hbacked := collect_backed Mysql.grammar d.version (.ofText d text)
    (Caret.index (.ofText d text) text.length)
  obtain ⟨-, hagreed⟩ := hbacked.tokens t following (lookup_of_mem hbacked.distinct.terminals hmem)
  have hall := hagreed.continues (Mysql.whole d.version)
  rw [h.kindsBefore_caret] at hall
  rcases hcase with rfl | rfl
  · exact hall
  · exact Grammar.Continues.of_append hall

/-- Typed behind a blank, a keyword is read as what it was suggested for, each word as the dialect
reads it. -/
theorem Fresh.kinds_of_offers {d : Dialect} {text : String} (h : Fresh d text) {uppercase : Bool}
    {collected : Candidates} {k : String} {offered : List Terminal}
    (hoffers : Offers uppercase collected k offered) :
    (TokenStream.ofText d (text ++ k ++ " ")).kinds =
      (TokenStream.ofText d text).kinds ++ offered.map (Terminal.reread d) := by
  obtain ⟨t, following, -, hcase⟩ := hoffers.candidate
  obtain ⟨words, ks, rfl, hspelled, hwords⟩ := hoffers.words
  have hne : words ≠ [] := by
    rintro rfl
    cases hspelled
    rcases hcase with rfl | rfl <;> cases hwords
  rw [h.kinds_append uppercase hspelled hne, reread_of_words d hwords]

theorem Grammar.Continues.recognizable {d : Dialect} {text typed : String} {more : List Terminal}
    (h : Mysql.grammar.Continues d.version (TokenStream.ofText d text).kinds more)
    (htyped : (TokenStream.ofText d typed).kinds = (TokenStream.ofText d text).kinds ++ more) :
    Recognizable d typed := by
  obtain ⟨w, hw⟩ := h
  refine ⟨w, ?_⟩
  rw [htyped]
  exact hw

namespace Engine

/-- The suggestions at the end of a text that is one statement. -/
theorem items_of_complete {options : Options} {text : String} {items : List Item}
    (hsingle : ∀ t ∈ (TokenStream.ofText options.dialect text).tokens, t.kind ≠ .symbol .semicolon)
    (h : (mysql options).complete text text.length = .ok items) :
    ∃ references,
      items = (mysql options).suggest (candidatesAtEnd options.dialect text) references := by
  rcases Nat.lt_or_ge maxTextBytes text.utf8ByteSize with hlarge | hsize
  · unfold complete analyze at h
    rw [if_pos hlarge] at h
    cases h
  · obtain ⟨analysis, hok, hstatement, hitems⟩ :=
      analyze_eq options (.mysql options.dialect) hsize (Nat.le_refl text.length)
    rw [Statement.spanAt_of_forall hsingle, TokenStream.charLength_ofText] at hstatement
    rw [hstatement, Statement.cut_all] at hitems
    have hsame : items = analysis.items := by
      have hcomplete : (mysql options).complete text text.length = .ok analysis.items := by
        unfold complete
        exact congrArg (Except.map Analysis.items) hok
      exact Except.ok.inj (h.symm.trans hcomplete)
    rw [hsame, hitems]
    exact ⟨_, rfl⟩

theorem mem_ofCandidates {e : Engine} {candidates : Candidates} {references : List TableReference}
    {k : String} (h : ⟨k, .keyword⟩ ∈ e.suggest candidates references) :
    k ∈ Phrase.ofCandidates e.options.uppercaseKeywords candidates.tokens := by
  unfold suggest Item.gather at h
  simpa using h

/-- A keyword that is suggested behind a blank is suggested for some terminals, and it is read as
these, up to the reading of `NOT`. They go on from what was typed to something that the grammar
derives. So the text stays recognizable when the suggestion is accepted, unless `NOT` is misread. -/
theorem complete_recognizable (options : Options) (text k : String) (items : List Item)
    (hfresh : Fresh options.dialect text)
    (hitems : (mysql options).complete text text.length = .ok items)
    (hk : ⟨k, .keyword⟩ ∈ items) :
    ∃ offered : List Terminal,
      Offers options.uppercaseKeywords (candidatesAtEnd options.dialect text) k offered ∧
      (∃ w, Mysql.grammar.Derives options.dialect.version (.rule .query)
        ((TokenStream.ofText options.dialect text).kinds ++ offered ++ w)) ∧
      (TokenStream.ofText options.dialect (text ++ k ++ " ")).kinds =
        (TokenStream.ofText options.dialect text).kinds ++
          offered.map (Terminal.reread options.dialect) ∧
      (Recognizable options.dialect (text ++ k ++ " ") ∨
        Misread options.dialect (candidatesAtEnd options.dialect text) offered) := by
  obtain ⟨references, rfl⟩ := items_of_complete hfresh.single hitems
  obtain ⟨offered, hoffers, hnot⟩ := exists_offered (mem_ofCandidates hk)
  have hcontinues := hfresh.continues hoffers
  have hkinds := hfresh.kinds_of_offers hoffers
  by_cases hsame : ∀ x ∈ offered, x.reread options.dialect = x
  · refine ⟨offered, hoffers, hcontinues, hkinds, .inl ?_⟩
    exact hcontinues.recognizable (by rw [hkinds, List.map_congr_left hsame, List.map_id'])
  · obtain ⟨x, hx, hne⟩ : ∃ x ∈ offered, x.reread options.dialect ≠ x := by
      simpa only [not_forall, exists_prop] using hsame
    by_cases halone : offered = [x] ∧
        x.reread options.dialect ∈ (candidatesAtEnd options.dialect text).terminals
    · -- The reading of the dialect is a candidate too, and both are shown by one word.
      obtain ⟨rfl, hcandidate⟩ := halone
      have hother := hoffers.reread hcandidate
      have hothers := hfresh.continues hother
      refine ⟨_, hother, hothers, ?_, .inl (hothers.recognizable hkinds)⟩
      rw [List.map_singleton, Terminal.reread_reread, hkinds, List.map_singleton]
    · refine ⟨offered, hoffers, hcontinues, hkinds, .inr ?_⟩
      rcases Terminal.reread_cases hne with ⟨hmode, rfl, hread⟩ | ⟨hmode, rfl, hread⟩
      · obtain rfl := hnot hx
        rw [hread] at halone
        exact .low hmode hoffers.mem_terminals fun hcandidate => halone ⟨rfl, hcandidate⟩
      · rw [hread] at halone
        exact .high hmode hx fun hword hcandidate => halone ⟨hword, hcandidate⟩

theorem exists_items {e : Engine} {text k : String} {offset : Nat}
    (h : (e.complete text offset).map (fun items => decide (⟨k, .keyword⟩ ∈ items)) = .ok true) :
    ∃ items, e.complete text offset = .ok items ∧ ⟨k, .keyword⟩ ∈ items := by
  cases hitems : e.complete text offset with
  | error e =>
    rw [hitems] at h
    cases h
  | ok items =>
    rw [hitems] at h
    exact ⟨items, rfl, of_decide_eq_true (Except.ok.inj h)⟩

theorem complete_recognizable_orderBy :
    Fresh {} "DELETE FROM users " ∧
      (∃ items, (mysql {}).complete "DELETE FROM users " "DELETE FROM users ".length = .ok items ∧
        ⟨"ORDER BY", .keyword⟩ ∈ items) ∧
      Recognizable {} ("DELETE FROM users " ++ "ORDER BY" ++ " ") := by
  have hfresh : Fresh {} "DELETE FROM users " := by decide +kernel
  have hoffered : ((mysql {}).complete "DELETE FROM users " "DELETE FROM users ".length).map
      (fun items => decide (⟨"ORDER BY", .keyword⟩ ∈ items)) = .ok true := by decide +kernel
  obtain ⟨items, hitems, hk⟩ := exists_items hoffered
  refine ⟨hfresh, ⟨items, hitems, hk⟩, ?_⟩
  obtain ⟨offered, -, -, hkinds, hread | hmisread⟩ :=
    complete_recognizable {} _ _ items hfresh hitems hk
  · exact hread
  · have hwords : (TokenStream.ofText {} ("DELETE FROM users " ++ "ORDER BY" ++ " ")).kinds =
        (TokenStream.ofText {} "DELETE FROM users ").kinds ++ [.keyword .ORDER, .keyword .BY] := by
      decide +kernel
    have hoffered := List.append_cancel_left (hkinds.symm.trans hwords)
    cases hmisread with
    | low => cases hoffered
    | high mode => cases mode

end Engine

/-! ## A word that is misread -/

namespace Mysql

/-- No preferred rule refers to a rule, and none has the word `NOT` in it. -/
theorem preferred_without_not : ∀ r : Rule, (!r.isPreferred || ((body r).rules.isEmpty &&
    ((body r).places []).all fun p => p.1 != .keyword .NOT)) = true :=
  Rule.forall_of_ofNat (by decide +kernel)

/-- Where `NOT` is next, no preferred rule is open. -/
theorem not_outside_preferred {v : Version} {input : List Terminal} {chain : List Rule}
    {next : List Element} (h : grammar.Expects v input chain (.token (.keyword .NOT) next)) :
    ∀ r ∈ chain, r.isPreferred = false := by
  intro r hr
  cases hpreferred : r.isPreferred with
  | false => rfl
  | true =>
    obtain ⟨outer, inner, hchain⟩ := List.append_of_mem hr
    obtain ⟨_, _, _, -, -, hbody, hreach⟩ := Grammar.Reaches.split h hchain
    obtain rfl := Option.some.inj hbody
    have hcheck := preferred_without_not r
    rw [hpreferred, Bool.not_true, Bool.false_or, Bool.and_eq_true, List.isEmpty_iff,
      List.all_eq_true] at hcheck
    obtain ⟨hrules, hplaces⟩ := hcheck
    obtain rfl : inner = [] := by
      cases inner with
      | nil => rfl
      | cons s inner =>
        have hmem := hreach.invocations.1 s rfl
        rw [hrules] at hmem
        cases hmem
    rcases hreach.place with ⟨-, hplace⟩ | ⟨_, _, hlast, -⟩
    · exact absurd rfl (bne_iff_ne.1 (hplaces _ hplace))
    · cases hlast

end Mysql

/-- Behind a plus sign only `NOT2` can stand, and it is suggested as `NOT`. By default that word is
read as the other terminal, which the grammar does not have there. -/
theorem not_after_plus_unrecognizable :
    Fresh {} "SELECT 1 + " ∧
      (∃ items, (Engine.mysql {}).complete "SELECT 1 + " "SELECT 1 + ".length = .ok items ∧
        ⟨"NOT", .keyword⟩ ∈ items) ∧
      ¬Recognizable {} ("SELECT 1 + " ++ "NOT" ++ " ") := by
  have hfresh : Fresh {} "SELECT 1 + " := by decide +kernel
  refine ⟨hfresh, Engine.exists_items (by decide +kernel), ?_⟩
  rintro ⟨w, hw⟩
  have hkinds : (TokenStream.ofText {} ("SELECT 1 + " ++ "NOT" ++ " ")).kinds =
      (TokenStream.ofText {} "SELECT 1 + ").kinds ++ [.keyword .NOT] := by decide +kernel
  rw [hkinds, List.append_assoc, ← hfresh.kindsBefore_caret] at hw
  obtain ⟨chain, next, hreach⟩ := hw.exists_reaches rfl rfl []
  -- The walk to the caret was not cut off, so `NOT` would have been collected.
  have hwalk : (Walk.run (caretSetting Mysql.grammar .standard (.ofText {} "SELECT 1 + ")
      (Caret.index (.ofText {} "SELECT 1 + ") "SELECT 1 + ".length))).2.Uncut ∧
      (Walk.run (caretSetting Mysql.grammar .standard (.ofText {} "SELECT 1 + ")
        (Caret.index (.ofText {} "SELECT 1 + ") "SELECT 1 + ".length))).2.candidates.tokens.lookup
          (.keyword .NOT) = none := by
    unfold Walk.State.Uncut
    decide +kernel
  obtain ⟨hcut, hnone⟩ := hwalk
  have hanswered := Walk.answered_expects (Walk.run_answered hcut) (Mysql.not_skips _ _)
  obtain ⟨known, hknown, -⟩ := hanswered.occurs
    ⟨chain, next, hreach, Mysql.not_outside_preferred hreach, rfl⟩ rfl
  rw [hnone] at hknown
  cases hknown

end SqlCompletion
