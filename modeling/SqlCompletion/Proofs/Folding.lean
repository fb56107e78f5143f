import SqlCompletion.Proofs.Provenance
import SqlCompletion.Proofs.Wording
set_option autoImplicit false

/-!
# Letter case does not change an answer

Keywords are offered in upper or in lower case. Texts that are the same are offered once, and that
is looked at behind the folding. All the texts of terminals are ASCII, where folding to one case can
be undone by folding to the other (`Text.lower_upper`, `Text.upper_lower`). So both foldings merge
the same texts, and the one answer is the other one with its keywords in lower case
(`Engine.complete_lowercase`).

The result is about whole answers: the same columns and tables, the same places, the same errors,
for every text and offset and whatever the parser and the collector are. An option that changes the
case is not seen by anything but the texts of keywords.

That the texts are ASCII is checked on the spellings of keywords and on the texts of symbols
(`Keyword.ascii_of_mem_spellings`, `Symbol.ascii_text`); other texts may not come back, as a letter
need not have one letter for it in the other case.
-/

namespace SqlCompletion

/-! ## Folding back and forth -/

namespace Text

variable {s t : String}

theorem ascii_upper (h : ∀ c ∈ s.toList, c.toNat < 128) :
    ∀ c ∈ (upper s).toList, c.toNat < 128 := by
  intro c hc
  rw [toList_upper h] at hc
  obtain ⟨b, hb, rfl⟩ := List.mem_map.1 hc
  refine of_decide_eq_true ?_
  exact forall_of_ascii (p := fun c => decide (c.toUpper.toNat < 128)) (by decide +kernel) (h b hb)

theorem ascii_lower (h : ∀ c ∈ s.toList, c.toNat < 128) :
    ∀ c ∈ (lower s).toList, c.toNat < 128 := by
  intro c hc
  rw [toList_lower h] at hc
  obtain ⟨b, hb, rfl⟩ := List.mem_map.1 hc
  refine of_decide_eq_true ?_
  exact forall_of_ascii (p := fun c => decide (c.toLower.toNat < 128)) (by decide +kernel) (h b hb)

theorem lower_upper (h : ∀ c ∈ s.toList, c.toNat < 128) : lower (upper s) = lower s := by
  rw [← String.toList_inj, toList_lower (ascii_upper h), toList_upper h, toList_lower h,
    List.map_map]
  refine List.map_congr_left fun c hc => eq_of_beq ?_
  exact forall_of_ascii (p := fun c => c.toUpper.toLower == c.toLower) (by decide +kernel) (h c hc)

theorem upper_lower (h : ∀ c ∈ s.toList, c.toNat < 128) : upper (lower s) = upper s := by
  rw [← String.toList_inj, toList_upper (ascii_lower h), toList_lower h, toList_upper h,
    List.map_map]
  refine List.map_congr_left fun c hc => eq_of_beq ?_
  exact forall_of_ascii (p := fun c => c.toLower.toUpper == c.toUpper) (by decide +kernel) (h c hc)

/-- Texts that are the same in lower case are the same in upper case. -/
theorem upper_eq_of_lower_eq (hs : ∀ c ∈ s.toList, c.toNat < 128)
    (ht : ∀ c ∈ t.toList, c.toNat < 128) (h : lower (upper s) = lower (upper t)) :
    upper s = upper t := by
  rw [lower_upper hs, lower_upper ht] at h
  rw [← upper_lower hs, h, upper_lower ht]

end Text

theorem eraseDups_map {f : String → String} {texts : List String}
    (h : ∀ x ∈ texts, ∀ y ∈ texts, f x = f y → x = y) :
    (texts.map f).eraseDups = texts.eraseDups.map f := by
  induction texts using List.reverseRecOn with
  | nil => rfl
  | append_singleton texts x ih =>
    have hmem : f x ∈ texts.map f ↔ x ∈ texts := by
      constructor
      · intro hfx
        obtain ⟨y, hy, heq⟩ := List.mem_map.1 hfx
        have hxy := h y (List.mem_append_left _ hy) x (by simp) heq
        exact hxy ▸ hy
      · exact List.mem_map_of_mem
    have hrest := ih fun y hy z hz => h y (List.mem_append_left _ hy) z (List.mem_append_left _ hz)
    rw [List.map_append, List.map_singleton, eraseDups_concat, eraseDups_concat, hrest,
      List.map_append]
    by_cases hx : x ∈ texts
    · rw [if_pos hx, if_pos (hmem.2 hx), List.map_nil]
    · rw [if_neg hx, if_neg fun hfx => hx (hmem.1 hfx), List.map_singleton]

/-! ## The texts of terminals -/

theorem Symbol.ascii_text (s : Symbol) : ∀ c ∈ s.text.toList, c.toNat < 128 := by
  refine Text.ascii_of_bytes ?_
  cases s <;> decide +kernel

theorem Keyword.ascii_of_mem_spellings {k : Keyword} {s : String} (h : s ∈ k.spellings) :
    ∀ c ∈ s.toList, c.toNat < 128 :=
  (toList_of_isSpelling (isSpelling_spellings k (mem_all k) s h)).1

theorem Terminal.ascii_phrase (t : Terminal) : ∀ c ∈ t.phrase.toList, c.toNat < 128 := by
  cases t with
  | keyword k => exact Keyword.ascii_of_mem_spellings List.mem_cons_self
  | symbol s => exact s.ascii_text

theorem Terminal.ascii_synonyms (t : Terminal) :
    ∀ s ∈ t.synonyms, ∀ c ∈ s.toList, c.toNat < 128 := by
  intro s hs
  cases t with
  | keyword k => exact Keyword.ascii_of_mem_spellings (List.mem_cons_of_mem _ hs)
  | symbol _ => cases hs

namespace Phrase

/-- The texts that are suggested for one terminal, before they are folded. -/
def textsOf (candidate : Terminal × List Terminal) : List String :=
  match text? candidate.1 candidate.2 with
  | none => []
  | some text => text :: candidate.1.synonyms

theorem ofCandidates_eq_map (uppercase : Bool) (tokens : List (Terminal × List Terminal)) :
    ofCandidates uppercase tokens = ((mergeNot tokens).flatMap textsOf).map (fold uppercase) := by
  unfold ofCandidates
  rw [List.map_flatMap]
  refine List.flatMap_congr fun candidate _ => ?_
  unfold ofCandidate textsOf
  cases text? candidate.1 candidate.2 <;> rfl

theorem ascii_textsOf (candidate : Terminal × List Terminal) :
    ∀ s ∈ textsOf candidate, ∀ c ∈ s.toList, c.toNat < 128 := by
  intro s hs
  unfold textsOf at hs
  split at hs
  · cases hs
  · rename_i text htext
    rcases List.mem_cons.1 hs with rfl | hs
    · unfold text? at htext
      split at htext
      · cases htext
      · cases htext
        refine ascii_intercalate fun w hw => ?_
        obtain ⟨t, -, rfl⟩ := List.mem_map.1 hw
        exact t.ascii_phrase
    · exact candidate.1.ascii_synonyms s hs

/-- Both foldings merge the same texts. -/
theorem eraseDups_ofCandidates (tokens : List (Terminal × List Terminal)) :
    (ofCandidates false tokens).eraseDups =
      (ofCandidates true tokens).eraseDups.map Text.lower := by
  have hascii : ∀ s ∈ (mergeNot tokens).flatMap textsOf, ∀ c ∈ s.toList, c.toNat < 128 := by
    intro s hs
    obtain ⟨candidate, -, hs⟩ := List.mem_flatMap.1 hs
    exact ascii_textsOf candidate s hs
  rw [ofCandidates_eq_map, ofCandidates_eq_map]
  generalize (mergeNot tokens).flatMap textsOf = texts at hascii ⊢
  have hlower : texts.map (fold false) = (texts.map (fold true)).map Text.lower := by
    rw [List.map_map]
    exact List.map_congr_left fun s hs => (Text.lower_upper (hascii s hs)).symm
  rw [hlower]
  refine eraseDups_map fun x hx y hy heq => ?_
  obtain ⟨s, hs, rfl⟩ := List.mem_map.1 hx
  obtain ⟨t, ht, rfl⟩ := List.mem_map.1 hy
  exact Text.upper_eq_of_lower_eq (hascii s hs) (hascii t ht) heq

end Phrase

/-! ## Answers -/

/-- The suggestion with its text in lower case if it is a keyword. -/
def Item.lowered (i : Item) : Item :=
  match i.kind with
  | .keyword => { i with text := Text.lower i.text }
  | .column | .table => i

theorem Item.map_lowered_blocks (keywords columns tables : List String) :
    (Item.blocks keywords columns tables).map Item.lowered =
      Item.blocks (keywords.map Text.lower) columns tables := by
  unfold Item.blocks
  simp only [List.map_append, List.map_map]
  rfl

namespace Engine

variable (e : Engine)

/-- The engine with keywords in upper case, or in lower case. -/
def withUppercase (uppercase : Bool) : Engine :=
  { e with options := e.options.withUppercase uppercase }

theorem suggest_lowercase (candidates : Candidates) (references : List TableReference) :
    (e.withUppercase false).suggest candidates references =
      ((e.withUppercase true).suggest candidates references).map Item.lowered := by
  have hblocks : ∀ uppercase, (e.withUppercase uppercase).suggest candidates references =
      Item.blocks (Phrase.ofCandidates uppercase candidates.tokens).eraseDups
        (candidates.ruleNames.flatMap (e.columnsFor references)).eraseDups
        (candidates.ruleNames.flatMap (e.tablesFor references)).eraseDups := fun _ => rfl
  rw [hblocks, hblocks, Phrase.eraseDups_ofCandidates, Item.map_lowered_blocks]

/-- Whatever the parser and the collector are, the answer in lower case is the answer in upper case
with every keyword in lower case. Columns, tables, their places and the errors are the same. -/
theorem complete_lowercase (text : String) (offset : Nat) :
    (e.withUppercase false).complete text offset =
      ((e.withUppercase true).complete text offset).map (List.map Item.lowered) := by
  have hcaret : ∀ uppercase, resolveOffset (e.withUppercase uppercase).options.offsetPolicy offset
      text.length = resolveOffset e.options.offsetPolicy offset text.length := fun _ => rfl
  unfold complete analyze
  split
  · rfl
  · rw [hcaret, hcaret]
    cases resolveOffset e.options.offsetPolicy offset text.length with
    | error _ => rfl
    | ok caret => exact congrArg Except.ok (suggest_lowercase e _ _)

end Engine

end SqlCompletion
