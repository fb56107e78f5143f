import Mathlib.Data.List.Sort
import SqlCompletion.Proofs.Recovery
import SqlCompletion.Suggestion.Phrase
set_option autoImplicit false

/-!
# Words that are suggested are read back

A suggestion is made of the spellings of keywords, folded to one case and with single blanks in
between. Typed behind a blank, it is read as just these words (`scans_spaced`), and each word as the
keyword that it was made from (`Keyword.ofWord?_fold`), but for `NOT`, which the dialect decides on
(`Keyword.reading`).

That the spellings are words, and that no two keywords share one, is checked on their bytes: the
bytes of an ASCII text are its characters (`Text.toList_eq_ofBytes`), and bytes can be compared by
evaluation where texts are slow to. The keywords are in the order of the alphabet
(`Keyword.all_ordered`), so that a keyword is found among them by comparing neighbours only and not
all pairs.

* Folding does not matter to the keyword that a spelling means (`Keyword.ofWord?_fold`), as all
  spellings are ASCII.
* A word that means a keyword is one of its spellings, but for upper and lower case
  (`Keyword.exists_spelling_of_ofWord?`). So no single letter means one
  (`Keyword.ofWord?_singleton`), and a word that does starts with a letter.
* A phrase with a blank behind it is each of its words with a blank behind it
  (`toList_fold_intercalate`).

What stands around a phrase is treated where it is used: once with a text in front of it, where
suggestions are accepted, and once alone.
-/

namespace SqlCompletion

/-! ## ASCII texts -/

namespace Text

/-- The bytes of a text. -/
def bytes (s : String) : List UInt8 := s.toByteArray.data.toList

theorem bytes_eq (s : String) : bytes s = s.toList.flatMap String.utf8EncodeChar := by
  unfold bytes
  rw [← String.utf8Encode_toList, List.utf8Encode, List.data_toByteArray]

/-- A character whose bytes are ASCII has one byte, which is its code. -/
theorem utf8EncodeChar_of_ascii {c : Char} (h : ∀ b ∈ String.utf8EncodeChar c, b.toNat < 128) :
    String.utf8EncodeChar c = [UInt8.ofNat c.toNat] ∧ (UInt8.ofNat c.toNat).toNat = c.toNat := by
  unfold String.utf8EncodeChar at h ⊢
  dsimp only at h ⊢
  split at h
  · rename_i hle
    refine ⟨if_pos hle, ?_⟩
    rw [UInt8.toNat_ofNat']
    exact Nat.mod_eq_of_lt (Nat.lt_of_le_of_lt hle (by decide))
  · -- The first of several bytes has its highest bit set.
    exfalso
    split at h
    · have hfirst := h _ List.mem_cons_self
      rw [UInt8.toNat_ofNat'] at hfirst
      omega
    · split at h
      · have hfirst := h _ List.mem_cons_self
        rw [UInt8.toNat_ofNat'] at hfirst
        omega
      · have hfirst := h _ List.mem_cons_self
        rw [UInt8.toNat_ofNat'] at hfirst
        omega

/-- The bytes of an ASCII text are its characters. -/
theorem toList_eq_ofBytes {s : String} (h : ∀ b ∈ bytes s, b.toNat < 128) :
    s.toList = (bytes s).map fun b => Char.ofNat b.toNat := by
  rw [bytes_eq] at h ⊢
  generalize s.toList = cs at h ⊢
  induction cs with
  | nil => rfl
  | cons c cs ih =>
    rw [List.flatMap_cons] at h ⊢
    obtain ⟨hcode, hsame⟩ := utf8EncodeChar_of_ascii fun b hb => h b (List.mem_append_left _ hb)
    have hrest := ih fun b hb => h b (List.mem_append_right _ hb)
    rw [hcode, List.singleton_append, List.map_cons, hsame, ← hrest, Char.ofNat_toNat]

theorem ascii_of_bytes {s : String} (h : ∀ b ∈ bytes s, b.toNat < 128) :
    ∀ c ∈ s.toList, c.toNat < 128 := by
  intro c hc
  rw [bytes_eq] at h
  have hbytes : ∀ b ∈ String.utf8EncodeChar c, b.toNat < 128 := fun b hb =>
    h b (List.mem_flatMap.2 ⟨c, hc, hb⟩)
  obtain ⟨hcode, hsame⟩ := utf8EncodeChar_of_ascii hbytes
  rw [← hsame]
  exact hbytes _ (hcode ▸ List.mem_singleton_self _)

/-- What is tested of the ASCII characters by their codes holds of all of them. -/
theorem forall_of_ascii {p : Char → Bool} (h : ∀ n < 128, p (Char.ofNat n) = true) {c : Char}
    (hc : c.toNat < 128) : p c = true := by
  have hcode := h c.toNat hc
  rwa [Char.ofNat_toNat] at hcode

theorem toList_upper {s : String} (h : ∀ c ∈ s.toList, c.toNat < 128) :
    (upper s).toList = s.toList.map Char.toUpper := by
  unfold upper
  rw [String.toList_ofList]
  generalize s.toList = cs at h ⊢
  induction cs with
  | nil => rfl
  | cons c cs ih =>
    have hc : upperChar c = [c.toUpper] := if_pos (h c List.mem_cons_self)
    rw [List.flatMap_cons, hc, ih fun x hx => h x (List.mem_cons_of_mem c hx)]
    rfl

theorem lowerFrom_of_ascii {cs : List Char} (h : ∀ c ∈ cs, c.toNat < 128)
    (before lowered : List Char) :
    lowerFrom before lowered cs = lowered.reverse ++ cs.map Char.toLower := by
  induction cs generalizing before lowered with
  | nil => simp [lowerFrom]
  | cons c cs ih =>
    have hascii : c.toNat < 128 := h c List.mem_cons_self
    have hsigma : (c == 'Σ') = false := by
      rw [beq_eq_false_iff_ne]
      rintro rfl
      exact absurd hascii (by decide)
    have hc : lowerChar c = [c.toLower] := if_pos hascii
    rw [lowerFrom, hsigma, ih fun x hx => h x (List.mem_cons_of_mem c hx)]
    simp [hc]

theorem toList_lower {s : String} (h : ∀ c ∈ s.toList, c.toNat < 128) :
    (lower s).toList = s.toList.map Char.toLower := by
  unfold lower
  rw [String.toList_ofList, lowerFrom_of_ascii h]
  rfl

end Text

/-! ## Words with blanks in between -/

namespace Lexeme

/-- A word that starts with a letter. -/
def IsWord : List Char → Prop
  | [] => False
  | c :: v => c.isAlpha = true ∧ ∀ x ∈ v, isWordPart x = true

instance : DecidablePred IsWord
  | [] => inferInstanceAs (Decidable False)
  -- Not all characters there are have to be looked at, but those of the word.
  | c :: v => @instDecidableAnd (c.isAlpha = true) _ inferInstance (List.decidableBAll _ v)

theorem runLength_of_forall {p : Char → Bool} {v : List Char} (h : ∀ x ∈ v, p x = true) {c : Char}
    (hc : p c = false) (rest : List Char) : runLength p (v ++ c :: rest) = v.length := by
  unfold runLength
  rw [List.takeWhile_append_of_pos h, List.takeWhile_cons, hc]
  simp

theorem isDigit_of_isAlpha {c : Char} (hc : c.isAlpha = true) : c.isDigit = false := by
  have hcodes : 65 ≤ c.toNat := by
    delta Char.isAlpha Char.isUpper Char.isLower at hc
    simp only [Bool.or_eq_true, Bool.and_eq_true, decide_eq_true_eq, ge_iff_le,
      UInt32.le_iff_toNat_le] at hc
    change 65 ≤ c.toNat ∧ c.toNat ≤ 90 ∨ 97 ≤ c.toNat ∧ c.toNat ≤ 122 at hc
    omega
  rw [Bool.eq_false_iff]
  intro hcontra
  simp only [Char.isDigit, Bool.and_eq_true, decide_eq_true_eq, ge_iff_le,
    UInt32.le_iff_toNat_le] at hcontra
  change 48 ≤ c.toNat ∧ c.toNat ≤ 57 at hcontra
  omega

/-- A word with a blank behind it is one lexeme. -/
theorem first_of_isWord {c : Char} {v : List Char} (h : IsWord (c :: v)) (after : Option Form)
    (rest : List Char) : first after c (v ++ ' ' :: rest) = .ok (.word, 1 + v.length) := by
  obtain ⟨hc, hv⟩ := h
  have hne : ∀ x : Char, x.isAlpha = false → (c == x) = false := by
    intro x hx
    rw [beq_eq_false_iff_ne]
    rintro rfl
    rw [hc] at hx
    cases hx
  have hdigit := isDigit_of_isAlpha hc
  have hpart : isWordPart c = true := by
    simp [isWordPart, Char.isAlphanum, hc]
  -- A quote does not follow, so the letters of strings make words here.
  have hquote : ∀ (q : Char) (tail : List Char), isWordPart q = false → q ≠ ' ' →
      v ++ ' ' :: rest ≠ q :: tail := by
    intro q tail hq hblank heq
    cases v with
    | nil => exact hblank (List.cons.inj heq).1.symm
    | cons x v =>
      obtain ⟨rfl, -⟩ := List.cons.inj heq
      rw [hv x List.mem_cons_self] at hq
      cases hq
  have hword : word 1 (v ++ ' ' :: rest) = .ok (.word, 1 + v.length) := by
    rw [word, runLength_of_forall hv (by decide)]
  unfold first
  simp only [hne ' ' rfl, hne '\t' rfl, hne '\n' rfl, hne '\r' rfl, hne '\'' rfl, hne '"' rfl,
    hne '\x60' rfl, hne '.' rfl, hne '#' rfl, hne '-' rfl, hne '/' rfl, hne '@' rfl, hne '?' rfl,
    hdigit, hpart, Bool.or_self, Bool.false_and, Bool.false_eq_true, if_false, if_true]
  split
  · split
    · rename_i tail heq
      exact absurd heq (hquote '\'' tail (by decide) (by decide))
    · rename_i tail heq
      exact absurd heq (hquote '"' tail (by decide) (by decide))
    · exact hword
  · split
    · split
      · rename_i tail heq
        exact absurd heq (hquote '\'' tail (by decide) (by decide))
      · exact hword
    · split
      · split
        · rename_i tail heq
          exact absurd heq (hquote '\'' tail (by decide) (by decide))
        · exact hword
      · exact hword

/-- The lexemes of some words with a blank behind each. -/
def spaced (ws : List (List Char)) : List (Form × List Char) :=
  ws.flatMap fun w => [(.word, w), (.blank, [' '])]

theorem chars_spaced (ws : List (List Char)) :
    chars (spaced ws) = ws.flatMap fun w => w ++ [' '] := by
  induction ws with
  | nil => rfl
  | cons w ws ih =>
    have hcons : spaced (w :: ws) = (.word, w) :: (.blank, [' ']) :: spaced ws := rfl
    rw [hcons, chars_cons, chars_cons, ih, List.flatMap_cons, List.append_assoc]

/-- They are read as such. -/
theorem scans_spaced {ws : List (List Char)} (h : ∀ w ∈ ws, IsWord w) (after : Option Form)
    (rest : List Char) : Scans after (spaced ws) rest := by
  induction ws generalizing after with
  | nil => exact .nil _ _
  | cons w ws ih =>
    have hword := h w List.mem_cons_self
    cases w with
    | nil => exact hword.elim
    | cons c v =>
      have hrest := ih (fun u hu => h u (List.mem_cons_of_mem _ hu)) (some .blank)
      have hblank : Scans (some .word) ((.blank, [' ']) :: spaced ws) rest := .cons rfl hrest
      exact .cons (first_of_isWord hword after (chars (spaced ws) ++ rest)) hblank

end Lexeme

/-! ## Spellings -/

namespace Keyword

/-- A character of a spelling. -/
def isMark (c : Char) : Bool := c.isUpper || c.isDigit || c == '_'

/-- The characters are a capital letter, and then capital letters, digits and underscores. -/
def isName : List Char → Bool
  | [] => false
  | c :: v => c.isUpper && v.all isMark

/-- The text is a name in ASCII, told by its bytes. -/
def isSpelling (s : String) : Bool :=
  (Text.bytes s).all (fun b => decide (b.toNat < 128)) &&
    isName ((Text.bytes s).map fun b => Char.ofNat b.toNat)

theorem toList_of_isSpelling {s : String} (h : isSpelling s = true) :
    (∀ c ∈ s.toList, c.toNat < 128) ∧ isName s.toList = true := by
  obtain ⟨hascii, hname⟩ := Bool.and_eq_true_iff.1 h
  have hbytes : ∀ b ∈ Text.bytes s, b.toNat < 128 := fun b hb =>
    of_decide_eq_true (List.all_eq_true.1 hascii b hb)
  refine ⟨Text.ascii_of_bytes hbytes, ?_⟩
  rw [Text.toList_eq_ofBytes hbytes]
  exact hname

/-- The spellings of the keyword. -/
def spellings (k : Keyword) : List String := k.spelling :: k.synonyms

/-- The place of a spelling in the alphabet, in which an underscore comes first. -/
def place (s : String) : List Nat :=
  (Text.bytes s).map fun b => if b.toNat = 95 then 0 else b.toNat

theorem all_eq : all = (List.range 411).map ofNat := by decide +kernel

theorem ctorIdx_lt (k : Keyword) : k.ctorIdx < 411 := by
  cases k <;> decide

theorem mem_all (k : Keyword) : k ∈ all := by
  rw [all_eq, List.mem_map]
  exact ⟨k.ctorIdx, List.mem_range.2 (ctorIdx_lt k), ofNat_ctorIdx k⟩

theorem isSpelling_spellings : ∀ k ∈ all, ∀ s ∈ k.spellings, isSpelling s = true := by
  decide +kernel

/-- The keywords are in the order of the alphabet. -/
theorem all_ordered : (all.map fun k => place k.spelling).IsChain (· < ·) := by decide +kernel

theorem ofSpelling?_synonym : ∀ k ∈ all, ∀ s ∈ k.synonyms, ofSpelling? s = some k := by
  decide +kernel

theorem ofSpelling?_spelling (k : Keyword) : ofSpelling? k.spelling = some k := by
  have hnodup : (all.map fun k => place k.spelling).Nodup := by
    refine (List.isChain_iff_pairwise.1 all_ordered).imp ?_
    rintro a b hlt rfl
    exact List.lt_irrefl a hlt
  have hfound : all.find? (fun j => j.spelling == k.spelling) = some k := by
    cases hfind : all.find? (fun j => j.spelling == k.spelling) with
    | none =>
      have hnone := List.find?_eq_none.1 hfind k (mem_all k)
      exact absurd BEq.rfl hnone
    | some j =>
      have hfits := List.find?_some hfind
      have hsame : j.spelling = k.spelling := beq_iff_eq.1 hfits
      exact congrArg some
        (List.inj_on_of_nodup_map hnodup (mem_all j) (mem_all k) (congrArg place hsame))
  rw [ofSpelling?, hfound]
  rfl

theorem ofSpelling?_of_mem {k : Keyword} {s : String} (h : s ∈ k.spellings) :
    ofSpelling? s = some k := by
  rcases List.mem_cons.1 h with rfl | h
  · exact ofSpelling?_spelling k
  · exact ofSpelling?_synonym k (mem_all k) s h

theorem mem_spellings_of_ofSpelling? {s : String} {k : Keyword} (h : ofSpelling? s = some k) :
    s ∈ k.spellings := by
  unfold ofSpelling? at h
  rcases (Option.orElse_eq_some _ _ _).1 h with hfind | ⟨-, hfind⟩
  · have hsame := List.find?_some hfind
    rw [beq_iff_eq] at hsame
    exact hsame ▸ List.mem_cons_self
  · have hcontains := List.find?_some hfind
    exact List.mem_cons_of_mem _ (List.contains_iff_mem.1 hcontains)

/-- A word that means a keyword is one of its spellings, but for upper and lower case. -/
theorem exists_spelling_of_ofWord? {text : List Char} {k : Keyword}
    (h : ofWord? (String.ofList text) = some k) :
    ∃ s ∈ k.spellings, text.map Char.toUpper = s.toList := by
  refine ⟨_, mem_spellings_of_ofSpelling? h, ?_⟩
  rw [String.toList_map, String.toList_ofList]

theorem isAlpha_of_isUpper_toUpper {c : Char} (h : c.toUpper.isUpper = true) :
    c.isAlpha = true := by
  unfold Char.toUpper at h
  split at h
  · rename_i hlower
    delta Char.isAlpha Char.isLower
    simp only [Bool.or_eq_true, Bool.and_eq_true, decide_eq_true_eq]
    exact .inr hlower
  · delta Char.isAlpha
    rw [h, Bool.true_or]

/-- A word that means a keyword starts with a letter. -/
theorem isAlpha_of_ofWord? {c : Char} {v : List Char} {k : Keyword}
    (h : ofWord? (String.ofList (c :: v)) = some k) : c.isAlpha = true := by
  obtain ⟨s, hs, hsame⟩ := exists_spelling_of_ofWord? h
  obtain ⟨-, hname⟩ := toList_of_isSpelling (isSpelling_spellings k (mem_all k) s hs)
  rw [← hsame, List.map_cons, isName, Bool.and_eq_true] at hname
  exact isAlpha_of_isUpper_toUpper hname.1

theorem two_le_bytes_spellings : ∀ k ∈ all, ∀ s ∈ k.spellings, 2 ≤ (Text.bytes s).length := by
  decide +kernel

/-- No single letter means a keyword. -/
theorem ofWord?_singleton (c : Char) : ofWord? (String.ofList [c]) = none := by
  cases h : ofWord? (String.ofList [c]) with
  | none => rfl
  | some k =>
    obtain ⟨s, hs, hsame⟩ := exists_spelling_of_ofWord? h
    have hlong := two_le_bytes_spellings k (mem_all k) s hs
    have hascii := Bool.and_eq_true_iff.1 (isSpelling_spellings k (mem_all k) s hs)
    have hbytes : ∀ b ∈ Text.bytes s, b.toNat < 128 := fun b hb =>
      of_decide_eq_true (List.all_eq_true.1 hascii.1 b hb)
    rw [Text.toList_eq_ofBytes hbytes] at hsame
    have hlength := congrArg List.length hsame
    simp only [List.length_map, List.length_singleton] at hlength
    omega

/-- The terminal that the word of a keyword is read as. -/
def reading (d : Dialect) (k : Keyword) : Terminal :=
  if k = .NOT ∧ d.has .highNotPrecedence = true then .symbol .not2 else .keyword k

theorem wordTerminal_of_ofWord?_none (d : Dialect) {text : List Char}
    (h : ofWord? (String.ofList text) = none) :
    Form.wordTerminal d text = .symbol .identifier := by
  unfold Form.wordTerminal
  rw [h]

theorem wordTerminal_of_ofWord? (d : Dialect) {text : List Char} {k : Keyword}
    (h : ofWord? (String.ofList text) = some k) : Form.wordTerminal d text = k.reading d := by
  unfold Form.wordTerminal reading
  rw [h]
  split
  · rename_i hnot
    obtain rfl := Option.some.inj hnot
    simp
  · rename_i j hnot hj
    obtain rfl := Option.some.inj hj
    rw [if_neg]
    rintro ⟨rfl, -⟩
    exact hnot rfl
  · rename_i hnone
    cases hnone

end Keyword

/-! ## Phrases -/

namespace Phrase

/-- A letter in upper or in lower case. -/
def foldChar (uppercase : Bool) (c : Char) : Char := if uppercase then c.toUpper else c.toLower

theorem toList_fold (uppercase : Bool) {s : String} (h : ∀ c ∈ s.toList, c.toNat < 128) :
    (fold uppercase s).toList = s.toList.map (foldChar uppercase) := by
  cases uppercase with
  | true => exact Text.toList_upper h
  | false => exact Text.toList_lower h

/-- What folding does to the characters of a spelling. -/
theorem foldChar_mark (uppercase : Bool) {c : Char} (hc : c.toNat < 128)
    (h : Keyword.isMark c = true) :
    Lexeme.isWordPart (foldChar uppercase c) = true ∧ (foldChar uppercase c).toUpper = c := by
  have hall : (!Keyword.isMark c || (Lexeme.isWordPart (foldChar uppercase c) &&
      (foldChar uppercase c).toUpper == c)) = true := by
    refine Text.forall_of_ascii (p := fun c => !Keyword.isMark c ||
      (Lexeme.isWordPart (foldChar uppercase c) && (foldChar uppercase c).toUpper == c)) ?_ hc
    cases uppercase <;> decide +kernel
  simpa [h] using hall

theorem foldChar_upper (uppercase : Bool) {c : Char} (hc : c.toNat < 128)
    (h : c.isUpper = true) : (foldChar uppercase c).isAlpha = true := by
  have hall : (!c.isUpper || (foldChar uppercase c).isAlpha) = true := by
    refine Text.forall_of_ascii (p := fun c => !c.isUpper || (foldChar uppercase c).isAlpha) ?_ hc
    cases uppercase <;> decide +kernel
  simpa [h] using hall

/-- A spelling is a word in both cases. -/
theorem isWord_fold (uppercase : Bool) {s : String} (h : Keyword.isSpelling s = true) :
    Lexeme.IsWord (fold uppercase s).toList := by
  obtain ⟨hascii, hname⟩ := Keyword.toList_of_isSpelling h
  rw [toList_fold uppercase hascii]
  cases hs : s.toList with
  | nil =>
    rw [hs] at hname
    cases hname
  | cons c v =>
    rw [hs] at hascii hname
    obtain ⟨hupper, hmarks⟩ := Bool.and_eq_true_iff.1 hname
    refine ⟨foldChar_upper uppercase (hascii c List.mem_cons_self) hupper, fun x hx => ?_⟩
    obtain ⟨y, hy, rfl⟩ := List.mem_map.1 hx
    exact (foldChar_mark uppercase (hascii y (List.mem_cons_of_mem c hy))
      (List.all_eq_true.1 hmarks y hy)).1

/-- Folding does not matter to the keyword that a spelling means. -/
theorem ofWord?_fold (uppercase : Bool) {s : String} (h : Keyword.isSpelling s = true) :
    Keyword.ofWord? (fold uppercase s) = Keyword.ofSpelling? s := by
  obtain ⟨hascii, hname⟩ := Keyword.toList_of_isSpelling h
  have hmarks : ∀ c ∈ s.toList, Keyword.isMark c = true := by
    intro c hc
    cases hs : s.toList with
    | nil =>
      rw [hs] at hc
      cases hc
    | cons x v =>
      rw [hs] at hc hname
      obtain ⟨hupper, hrest⟩ := Bool.and_eq_true_iff.1 hname
      rcases List.mem_cons.1 hc with rfl | hc
      · rw [Keyword.isMark, hupper]
        rfl
      · exact List.all_eq_true.1 hrest c hc
  have hback : (fold uppercase s).map Char.toUpper = s := by
    have hsame : ∀ c ∈ s.toList, (foldChar uppercase c).toUpper = c := fun c hc =>
      (foldChar_mark uppercase (hascii c hc) (hmarks c hc)).2
    rw [← String.toList_inj, String.toList_map, toList_fold uppercase hascii, List.map_map]
    exact (List.map_congr_left hsame).trans (List.map_id _)
  rw [Keyword.ofWord?, hback]

theorem wordTerminal_fold (d : Dialect) (uppercase : Bool) {k : Keyword} {s : String}
    (h : s ∈ k.spellings) :
    Form.wordTerminal d (fold uppercase s).toList = k.reading d := by
  refine Keyword.wordTerminal_of_ofWord? d ?_
  rw [String.ofList_toList, ofWord?_fold uppercase (Keyword.isSpelling_spellings k
    (Keyword.mem_all k) s h), Keyword.ofSpelling?_of_mem h]

theorem map_intercalate {f : Char → Char} (hf : f ' ' = ' ') {css : List (List Char)}
    (h : css ≠ []) :
    ([' '].intercalate css).map f ++ [' '] = css.flatMap fun cs => cs.map f ++ [' '] := by
  induction css with
  | nil => exact absurd rfl h
  | cons cs css ih =>
    cases css with
    | nil => simp
    | cons ds css =>
      rw [List.intercalate_cons_cons, List.flatMap_cons, ← ih (List.cons_ne_nil _ _)]
      simp [hf]

theorem mem_intercalate {c : Char} {css : List (List Char)} (h : c ∈ [' '].intercalate css) :
    c = ' ' ∨ ∃ cs ∈ css, c ∈ cs := by
  induction css with
  | nil => cases h
  | cons cs css ih =>
    cases css with
    | nil => exact .inr ⟨cs, by simp, by simpa using h⟩
    | cons ds css =>
      rw [List.intercalate_cons_cons, List.append_assoc, List.mem_append, List.mem_append,
        List.mem_singleton] at h
      rcases h with hcs | hblank | hrest
      · exact .inr ⟨cs, List.mem_cons_self, hcs⟩
      · exact .inl hblank
      · rcases ih hrest with hblank | ⟨es, hes, hc⟩
        · exact .inl hblank
        · exact .inr ⟨es, List.mem_cons_of_mem cs hes, hc⟩

/-- Words in ASCII make a phrase in ASCII. -/
theorem ascii_intercalate {words : List String} (h : ∀ w ∈ words, ∀ c ∈ w.toList, c.toNat < 128) :
    ∀ c ∈ (" ".intercalate words).toList, c.toNat < 128 := by
  intro c hc
  rw [String.toList_intercalate] at hc
  rcases mem_intercalate hc with rfl | ⟨cs, hcs, hc⟩
  · decide
  · obtain ⟨w, hw, rfl⟩ := List.mem_map.1 hcs
    exact h w hw c hc

/-- A phrase with a blank behind it is each of its words with a blank behind it. -/
theorem toList_fold_intercalate (uppercase : Bool) {words : List String} (hne : words ≠ [])
    (h : ∀ w ∈ words, ∀ c ∈ w.toList, c.toNat < 128) :
    (fold uppercase (" ".intercalate words)).toList ++ [' '] =
      words.flatMap fun w => (fold uppercase w).toList ++ [' '] := by
  have hblank : foldChar uppercase ' ' = ' ' := by
    cases uppercase <;> rfl
  have hphrase : (" ".intercalate words).toList = [' '].intercalate (words.map String.toList) :=
    String.toList_intercalate
  have hwords : ∀ w ∈ words,
      (fold uppercase w).toList ++ [' '] = w.toList.map (foldChar uppercase) ++ [' '] :=
    fun w hw => congrArg (· ++ [' ']) (toList_fold uppercase (h w hw))
  rw [toList_fold uppercase (ascii_intercalate h), hphrase,
    map_intercalate hblank (by simpa using hne), List.flatMap_map]
  exact (List.flatMap_congr hwords).symm

end Phrase

end SqlCompletion
