import SqlCompletion.Proofs.Isolation
import SqlCompletion.Proofs.Wording
set_option autoImplicit false

/-!
# Keyword phrases are read back

The text that is suggested for a keyword and for the keywords that must follow it is read as just
these keywords, in upper and in lower case, with nothing but a blank between any two of them, and so
is each synonym of a keyword (`Phrase.keywords_read_back`). That holds of every keyword, whatever
keywords follow it, in the dialect of a version without modes. A mode may give a word another
reading.

Here nothing stands around the phrase: its first word starts the text and its last one ends it,
where the reading of a suggestion behind a typed text has a blank on both sides. So the last word is
read without the blank behind it (`scans_joined`), and the rest is what is known of words with a
blank behind each.

The result is about all tokens of the text, the blanks between the words and the end among them,
with their terminals and texts (`shown_joined`).
-/

namespace SqlCompletion

open Lexeme (Scans chars spaced)

/-! ## Words with blanks between them -/

namespace Lexeme

/-- The lexemes of some words with a blank between any two of them. -/
def joined (ws : List (List Char)) : List (Form × List Char) :=
  (ws.map fun w => (Form.word, w)).intersperse (.blank, [' '])

theorem spaced_eq_joined {ws : List (List Char)} (h : ws ≠ []) :
    spaced ws = joined ws ++ [(.blank, [' '])] := by
  induction ws with
  | nil => exact absurd rfl h
  | cons w ws ih =>
    cases ws with
    | nil => rfl
    | cons u us =>
      have hrest := ih (List.cons_ne_nil u us)
      have hspaced : spaced (w :: u :: us) =
          (.word, w) :: (.blank, [' ']) :: spaced (u :: us) := rfl
      have hjoined : joined (w :: u :: us) =
          (.word, w) :: (.blank, [' ']) :: joined (u :: us) := rfl
      rw [hspaced, hrest, hjoined]
      rfl

/-- The last word is the same without the blank behind it. -/
theorem scans_joined {ws : List (List Char)} (h : ∀ w ∈ ws, IsWord w) (after : Option Form) :
    Scans after (joined ws) [] := by
  cases ws with
  | nil => exact .nil _ _
  | cons w ws =>
    have hscans := scans_spaced h after []
    rw [spaced_eq_joined (List.cons_ne_nil w ws)] at hscans
    exact (scans_append.1 hscans).1.alike (alike_of_part List.nil_prefix fun _ => rfl)

end Lexeme

/-! ## The tokens of a phrase -/

namespace TokenStream

/-- The terminal of a token and its text. -/
def shown (t : Token) : Terminal × String := (t.kind, t.text)

theorem map_shown_laid (index start : Nat) (ps : List (Terminal × List Char)) :
    (laid index start ps).map shown = ps.map fun p => (p.1, String.ofList p.2) := by
  induction ps generalizing index start with
  | nil => rfl
  | cons p ps ih => exact congrArg ((p.1, String.ofList p.2) :: ·) (ih _ _)

theorem map_intersperse {α β : Type} (f : α → β) (sep : α) (xs : List α) :
    (xs.intersperse sep).map f = (xs.map f).intersperse (f sep) := by
  induction xs with
  | nil => rfl
  | cons x xs ih =>
    cases xs with
    | nil => rfl
    | cons y ys => exact congrArg (f x :: f sep :: ·) ih

theorem filter_intersperse {α : Type} {p : α → Bool} {sep : α} {xs : List α} (hsep : p sep = false)
    (h : ∀ x ∈ xs, p x = true) : (xs.intersperse sep).filter p = xs := by
  induction xs with
  | nil => rfl
  | cons x xs ih =>
    have hx := h x List.mem_cons_self
    have hrest := ih fun y hy => h y (List.mem_cons_of_mem x hy)
    cases xs with
    | nil => simp [hx]
    | cons y ys => simp [List.intersperse, hx, hsep, hrest]

theorem kinds_visible (s : TokenStream) :
    s.visible.map Token.kind =
      ((s.tokens.map shown).map Prod.fst).filter fun kind => !(kind.channel == .hidden) := by
  rw [List.map_map, visible, List.filter_map]
  rfl

/-- Words with blanks between them are the tokens of the text that they make. -/
theorem shown_joined (d : Dialect) {text : String} {ws : List (List Char)}
    (htext : text.toList = chars (Lexeme.joined ws)) (h : ∀ w ∈ ws, Lexeme.IsWord w) :
    (ofText d text).tokens.map shown =
      (ws.map fun w => (Form.wordTerminal d w, String.ofList w)).intersperse
        (.symbol .whitespace, " ") ++ [(.eof, "")] := by
  rw [tokens_of_scans_whole d htext (Lexeme.scans_joined h none), map_shown_laid, List.map_append,
    piecesOf, Lexeme.joined, List.map_map, map_intersperse, List.map_map]
  rfl

end TokenStream

namespace Phrase

theorem toList_joined (uppercase : Bool) {words : List String} (hne : words ≠ [])
    (h : ∀ w ∈ words, Keyword.isSpelling w = true) :
    (fold uppercase (" ".intercalate words)).toList =
      chars (Lexeme.joined (words.map fun w => (fold uppercase w).toList)) := by
  have hphrase := toList_fold_intercalate uppercase hne fun w hw =>
    (Keyword.toList_of_isSpelling (h w hw)).1
  have hspaced := Lexeme.chars_spaced (words.map fun w => (fold uppercase w).toList)
  rw [Lexeme.spaced_eq_joined (by simpa using hne), List.flatMap_map, ← hphrase] at hspaced
  simpa using hspaced.symm

section

variable {ps : List (Keyword × String)} (uppercase : Bool)

/-- Spellings of keywords with blanks between them are read as the keywords, in either case. -/
theorem shown_spellings (d : Dialect) (hne : ps ≠ []) (h : ∀ p ∈ ps, p.2 ∈ p.1.spellings) :
    (TokenStream.ofText d (fold uppercase (" ".intercalate (ps.map Prod.snd)))).tokens.map
        TokenStream.shown =
      (ps.map fun p => (p.1.reading d, fold uppercase p.2)).intersperse
        (.symbol .whitespace, " ") ++
        [(.eof, "")] := by
  have hspelling : ∀ w ∈ ps.map Prod.snd, Keyword.isSpelling w = true := by
    intro w hw
    obtain ⟨p, hp, rfl⟩ := List.mem_map.1 hw
    exact Keyword.isSpelling_spellings p.1 (Keyword.mem_all p.1) p.2 (h p hp)
  have hword : ∀ w ∈ (ps.map Prod.snd).map fun w => (fold uppercase w).toList, Lexeme.IsWord w := by
    intro w hw
    obtain ⟨u, hu, rfl⟩ := List.mem_map.1 hw
    exact isWord_fold uppercase (hspelling u hu)
  have htext := toList_joined uppercase (by simpa using hne) hspelling
  have hread : ∀ p ∈ ps, (Form.wordTerminal d (fold uppercase p.2).toList,
      String.ofList (fold uppercase p.2).toList) = (p.1.reading d, fold uppercase p.2) := by
    intro p hp
    rw [wordTerminal_fold d uppercase (h p hp), String.ofList_toList]
  rw [TokenStream.shown_joined d htext hword, List.map_map, List.map_map,
    ← List.map_congr_left hread]
  rfl

end

/-- Without a mode that changes the reading of a word, a keyword is read as itself. -/
theorem reading_of_version (version : Version) (k : Keyword) :
    k.reading { version } = .keyword k :=
  if_neg fun h => Bool.false_ne_true h.2

/-- The phrase of a keyword and of the keywords that must follow it is read as these keywords, with
one blank between any two of them and nothing else. Each synonym of a keyword is read as the
keyword. -/
theorem keywords_read_back (version : Version) (uppercase : Bool) (k : Keyword)
    (following : List Keyword) :
    let stream (text : String) := TokenStream.ofText { version } (fold uppercase text)
    (∃ text, text? (.keyword k) (following.map .keyword) = some text ∧
      (stream text).visible.map Token.kind =
        .keyword k :: (following.map Terminal.keyword ++ [.eof]) ∧
      (stream text).tokens.map TokenStream.shown =
        ((k :: following).map fun j =>
          (Terminal.keyword j, fold uppercase j.spelling)).intersperse (.symbol .whitespace, " ") ++
            [(.eof, "")]) ∧
    ∀ s ∈ (Terminal.keyword k).synonyms,
      (stream s).tokens.map TokenStream.shown = [(.keyword k, fold uppercase s), (.eof, "")] := by
  intro stream
  constructor
  · have hwords : (Terminal.keyword k :: following.map .keyword).map Terminal.phrase =
        ((k :: following).map fun j => (j, j.spelling)).map Prod.snd := by
      simp [Terminal.phrase, Function.comp_def]
    have hspelled : ∀ p ∈ (k :: following).map fun j => (j, j.spelling), p.2 ∈ p.1.spellings := by
      intro p hp
      obtain ⟨j, -, rfl⟩ := List.mem_map.1 hp
      exact List.mem_cons_self
    have hshown := shown_spellings uppercase { version } (by simp) hspelled
    simp only [List.map_map, Function.comp_def, reading_of_version] at hwords hshown
    rw [← hwords] at hshown
    refine ⟨_, if_neg ?_, ?_, hshown⟩
    · cases following <;> simp
    · rw [TokenStream.kinds_visible, hshown, List.map_append, TokenStream.map_intersperse,
        List.filter_append, TokenStream.filter_intersperse rfl ?_]
      · simp [Function.comp_def, Terminal.channel]
      · simp [Terminal.channel]
  · intro s hs
    have hspelled : ∀ p ∈ [(k, s)], p.2 ∈ p.1.spellings := by
      intro p hp
      rw [List.mem_singleton.1 hp]
      exact List.mem_cons_of_mem _ hs
    have hshown := shown_spellings uppercase { version } (List.cons_ne_nil _ _) hspelled
    simpa [reading_of_version] using hshown

end Phrase

end SqlCompletion
