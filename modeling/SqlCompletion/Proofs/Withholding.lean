import SqlCompletion.Engine.Caret
import SqlCompletion.Proofs.Collection
import SqlCompletion.Proofs.Wording
set_option autoImplicit false

/-!
# The tokens that a caret withholds

Candidates are collected for the token that the caret touches, or for the one in front of it. In the
second case that one token is withheld from the grammar. It should be a word that is still being
typed, and never an operator. All that decides about it is whether the nearest visible terminal
stands alone, and there are five operators that do not (`Caret.isOverlooked`): the two braces, the
two arrows, and `||` where it puts texts together.

The main result has no hypotheses (`Caret.index_withholds`). The index for the caret is that of the
token that it touches or one less; what the grammar gets in the second case is what it gets in the
first, but for the tokens that are withheld; there is at most one of these; and it is an operator
just where one of the five adjoins the token that the caret touches. So an operator is withheld like
a word there (`concatPipes_withheld`).

The visible tokens are split at an index into those in front of it and those from it on
(`shownBefore`, `shownFrom`), and these lists tell the steps of a scanner. Both are used for the
scopes of tables too. Which candidates are found for the index is not a question of this module.
-/

namespace SqlCompletion

/-! ## Tokens by their index -/

namespace TokenStream

/-- The visible tokens with an index below `index`, in order. -/
def shownBefore (s : TokenStream) (index : Nat) : List Token :=
  (s.tokens.take index).filter fun t => !t.isHidden

/-- The visible tokens with an index from `index` on, in order. -/
def shownFrom (s : TokenStream) (index : Nat) : List Token :=
  (s.tokens.drop index).filter fun t => !t.isHidden

theorem visible_eq_append (s : TokenStream) (index : Nat) :
    s.visible = s.shownBefore index ++ s.shownFrom index := by
  rw [shownBefore, shownFrom, ← List.filter_append, List.take_append_drop, visible]

/-- A visible token comes first among those from its index on. -/
theorem shownFrom_eq_cons {s : TokenStream} {index : Nat} {t : Token}
    (ht : s.tokens[index]? = some t) (hvisible : t.isHidden = false) :
    s.shownFrom index = t :: s.visibleAfter index := by
  obtain ⟨hlt, rfl⟩ := List.getElem?_eq_some_iff.1 ht
  rw [shownFrom, List.drop_eq_getElem_cons hlt, List.filter_cons_of_pos (by simp [hvisible])]
  rfl

/-- Where no visible token stands, the visible ones from there on are those behind. -/
theorem shownFrom_eq_visibleAfter {s : TokenStream} {index : Nat}
    (h : ∀ t, s.tokens[index]? = some t → t.isHidden = true) :
    s.shownFrom index = s.visibleAfter index := by
  cases ht : s.tokens[index]? with
  | none =>
    have hlength : s.tokens.length ≤ index := List.getElem?_eq_none_iff.1 ht
    rw [shownFrom, visibleAfter, List.drop_of_length_le hlength,
      List.drop_of_length_le (Nat.le_succ_of_le hlength)]
  | some t =>
    have hhidden := h t ht
    obtain ⟨hlt, rfl⟩ := List.getElem?_eq_some_iff.1 ht
    rw [shownFrom, List.drop_eq_getElem_cons hlt, List.filter_cons_of_neg (by simp [hhidden])]
    rfl

/-- Every token has its place in the stream as its index. -/
def Indexed (s : TokenStream) : Prop :=
  ∀ (i : Nat) (t : Token), s.tokens[i]? = some t → t.index = i

theorem indexed_ofText (d : Dialect) (source : String) : (ofText d source).Indexed :=
  (isLaid_ofText d source).tiles.index

namespace Indexed

variable {s : TokenStream} {t : Token} {k : Nat}

theorem getElem?_index (h : s.Indexed) (ht : t ∈ s.tokens) : s.tokens[t.index]? = some t := by
  obtain ⟨i, hi⟩ := List.getElem?_of_mem ht
  rwa [h i t hi]

theorem lt_of_mem_take (h : s.Indexed) (ht : t ∈ s.tokens.take k) : t.index < k := by
  obtain ⟨i, hi⟩ := List.getElem?_of_mem ht
  rw [List.getElem?_take] at hi
  split at hi
  · rename_i hlt
    rwa [h i t hi]
  · cases hi

theorem le_of_mem_drop (h : s.Indexed) (ht : t ∈ s.tokens.drop k) : k ≤ t.index := by
  obtain ⟨i, hi⟩ := List.getElem?_of_mem ht
  rw [List.getElem?_drop] at hi
  rw [h (k + i) t hi]
  exact Nat.le_add_right k i

theorem mem_shownBefore_iff (h : s.Indexed) :
    t ∈ s.shownBefore k ↔ t ∈ s.visible ∧ t.index < k := by
  rw [visible_eq_append s k, List.mem_append]
  constructor
  · intro ht
    exact ⟨.inl ht, h.lt_of_mem_take (List.mem_of_mem_filter ht)⟩
  · rintro ⟨ht | ht, hlt⟩
    · exact ht
    · have hle := h.le_of_mem_drop (List.mem_of_mem_filter ht)
      omega

/-- The visible tokens with an index in a range. -/
theorem filter_visible (h : s.Indexed) {low high : Nat} (hle : low ≤ high) :
    s.visible.filter (fun t => decide (low ≤ t.index) && decide (t.index < high)) =
      ((s.tokens.take high).drop low).filter fun t => !t.isHidden := by
  let inRange : Token → Bool := fun t => decide (low ≤ t.index) && decide (t.index < high)
  have hbefore : ∀ t ∈ (s.tokens.take high).take low, ¬inRange t = true := by
    intro t ht
    rw [List.take_take, Nat.min_eq_left hle] at ht
    have hlt := h.lt_of_mem_take ht
    simp only [inRange, Bool.and_eq_true, decide_eq_true_eq]
    omega
  have hinside : ∀ t ∈ (s.tokens.take high).drop low, inRange t = true := by
    intro t ht
    have hlt := h.lt_of_mem_take (List.mem_of_mem_drop ht)
    have hge : low ≤ t.index := by
      rw [List.drop_take] at ht
      exact h.le_of_mem_drop (List.mem_of_mem_take ht)
    simp only [inRange, Bool.and_eq_true, decide_eq_true_eq]
    exact ⟨hge, hlt⟩
  have hbehind : ∀ t ∈ s.tokens.drop high, ¬inRange t = true := by
    intro t ht
    have hge := h.le_of_mem_drop ht
    simp only [inRange, Bool.and_eq_true, decide_eq_true_eq]
    omega
  have htokens : s.tokens = (s.tokens.take high).take low ++ (s.tokens.take high).drop low ++
      s.tokens.drop high := by
    rw [List.take_append_drop, List.take_append_drop]
  have hrange : s.tokens.filter inRange = (s.tokens.take high).drop low := by
    conv_lhs => rw [htokens]
    rw [List.filter_append, List.filter_append, List.filter_eq_nil_iff.2 hbefore,
      List.filter_eq_self.2 hinside, List.filter_eq_nil_iff.2 hbehind, List.nil_append,
      List.append_nil]
  rw [← hrange, visible, List.filter_filter, List.filter_filter]
  exact List.filter_congr fun t _ => Bool.and_comm _ _

/-- The visible tokens on both sides of one of them. -/
theorem shown_of_split (h : s.Indexed) {before behind : List Token}
    (hs : s.visible = before ++ t :: behind) :
    s.shownBefore t.index = before ∧ s.visibleAfter t.index = behind := by
  have hmem : t ∈ s.visible := by
    rw [hs]
    exact List.mem_append_right _ List.mem_cons_self
  obtain ⟨htokens, hvisible⟩ := List.mem_filter.1 hmem
  have hcut := visible_eq_append s t.index
  rw [shownFrom_eq_cons (h.getElem?_index htokens) (by simpa using hvisible), hs] at hcut
  have hfront : t ∉ s.shownBefore t.index := fun hin =>
    Nat.lt_irrefl _ (h.lt_of_mem_take (List.mem_of_mem_filter hin))
  have hback : t ∉ s.visibleAfter t.index := fun hin =>
    Nat.lt_irrefl _ (h.le_of_mem_drop (List.mem_of_mem_filter hin))
  obtain ⟨hbefore, -, hbehind⟩ := (List.append_cons_inj_of_notMem hfront hback).1 hcut.symm
  exact ⟨hbefore, hbehind⟩

/-- The nearest visible token in front of an index is the one right in front of it, if that is
visible. -/
theorem lookBack_succ (ht : s.tokens[k]? = some t) (hvisible : t.isHidden = false) :
    s.lookBack (k + 1) = t.kind := by
  have hlast : s.lastBefore? (k + 1) = some t := by
    unfold lastBefore?
    rw [List.take_add_one, ht, Option.toList_some, List.reverse_append, List.reverse_singleton,
      List.singleton_append, List.find?_cons_of_pos (by simp [hvisible])]
  rw [lookBack, hlast]
  rfl

end Indexed

end TokenStream

/-! ## Operators -/

/-- An operator or a mark of punctuation: a terminal that is shown in quotes, or `||` where it puts
texts together. -/
def Terminal.isMark (t : Terminal) : Bool :=
  t.displayName.toList.head? == some '\'' || t == .symbol .concatPipes

theorem Terminal.isMark_keyword (k : Keyword) : (Terminal.keyword k).isMark = false := by
  obtain ⟨-, hname⟩ := Keyword.toList_of_isSpelling
    (Keyword.isSpelling_spellings k (Keyword.mem_all k) k.spelling List.mem_cons_self)
  unfold isMark displayName
  rw [String.toList_append]
  cases hs : k.spelling.toList with
  | nil =>
    rw [hs] at hname
    cases hname
  | cons c cs =>
    rw [hs, Keyword.isName, Bool.and_eq_true] at hname
    have hne : c ≠ '\'' := by
      rintro rfl
      exact absurd hname.1 (by decide)
    simp [hne]

namespace Caret

variable {s : TokenStream} {t : Token} {offset : Nat}

/-- The operators that do not stand alone: braces, the two arrows, and `||` where it puts texts
together. -/
def isOverlooked (t : Terminal) : Bool :=
  t == .symbol .openCurly || t == .symbol .closeCurly || t == .symbol .jsonSeparator ||
    t == .symbol .jsonUnquotedSeparator || t == .symbol .concatPipes

theorem isOverlooked_iff (t : Terminal) :
    isOverlooked t = true ↔ t.isMark = true ∧ standsAlone t = false := by
  cases t with
  | keyword k => simp [isOverlooked, Terminal.isMark_keyword]
  | symbol s => cases s <;> decide +kernel

/-! ## The caret -/

/-- The visible tokens in front of the one that the caret touches that are withheld from the
collector. -/
def withheld (s : TokenStream) (offset : Nat) : List Token :=
  s.visible.filter fun t =>
    decide (index s offset ≤ t.index) && decide (t.index < s.indexAt offset)

theorem index_eq_or (s : TokenStream) (offset : Nat) :
    index s offset = s.indexAt offset ∨ index s offset + 1 = s.indexAt offset := by
  unfold index
  dsimp only
  split
  · omega
  · exact .inl rfl

/-- The token right in front of the one that the caret touches is withheld if it does not stand
alone, and no other is. -/
theorem mem_withheld_iff (h : s.Indexed) :
    t ∈ withheld s offset ↔
      t ∈ s.visible ∧ t.index + 1 = s.indexAt offset ∧ standsAlone t.kind = false := by
  have hback : t ∈ s.visible → t.index + 1 = s.indexAt offset →
      s.lookBack (s.indexAt offset) = t.kind := by
    intro hmem hnext
    obtain ⟨htokens, hvisible⟩ := List.mem_filter.1 hmem
    rw [← hnext]
    exact TokenStream.Indexed.lookBack_succ (h.getElem?_index htokens) (by simpa using hvisible)
  unfold withheld
  simp only [List.mem_filter, Bool.and_eq_true, decide_eq_true_eq]
  constructor
  · rintro ⟨hmem, hle, hlt⟩
    have hnext : t.index + 1 = s.indexAt offset := by
      rcases index_eq_or s offset with heq | heq
      · omega
      · omega
    refine ⟨hmem, hnext, ?_⟩
    rw [← hback hmem hnext]
    by_contra halone
    -- The caret would stay on the token that it touches.
    rw [index, if_neg fun hboth => halone hboth.2] at hle
    omega
  · rintro ⟨hmem, hnext, halone⟩
    rw [← hback hmem hnext] at halone
    rw [index, if_pos ⟨by omega, halone⟩]
    exact ⟨hmem, by omega, by omega⟩

theorem isHidden_of_isOverlooked (h : isOverlooked t.kind = true) : t.isHidden = false := by
  simp only [isOverlooked, Bool.or_eq_true, beq_iff_eq] at h
  rcases h with (((h | h) | h) | h) | h <;>
    simp [Token.isHidden, Token.channel, h, Terminal.channel]

theorem shownBefore_indexAt (h : s.Indexed) (offset : Nat) :
    s.shownBefore (s.indexAt offset) = s.shownBefore (index s offset) ++ withheld s offset := by
  have hle : index s offset ≤ s.indexAt offset := by
    rcases index_eq_or s offset with heq | heq <;> omega
  rw [withheld, h.filter_visible hle, TokenStream.shownBefore, TokenStream.shownBefore,
    ← List.filter_append]
  congr 1
  conv_rhs => rw [← Nat.min_eq_left hle, ← List.take_take, Nat.min_eq_left hle]
  rw [List.take_append_drop]

theorem length_withheld_le (h : s.Indexed) (offset : Nat) : (withheld s offset).length ≤ 1 := by
  have hle : index s offset ≤ s.indexAt offset := by
    rcases index_eq_or s offset with heq | heq <;> omega
  rw [withheld, h.filter_visible hle]
  refine Nat.le_trans (List.length_filter_le _ _) ?_
  rw [List.length_drop, List.length_take]
  rcases index_eq_or s offset with heq | heq <;> omega

/-- The caret's index is that of the token that it touches or the one in front. At most one token is
withheld from the collector, and it is an operator just where one of those that are overlooked
stands right in front of the token that the caret touches. -/
theorem index_withholds (d : Dialect) (text : String) (offset : Nat) :
    (index (.ofText d text) offset = (TokenStream.ofText d text).indexAt offset ∨
      index (.ofText d text) offset + 1 = (TokenStream.ofText d text).indexAt offset) ∧
    (TokenStream.ofText d text).kindsBefore ((TokenStream.ofText d text).indexAt offset) =
      (TokenStream.ofText d text).kindsBefore (index (.ofText d text) offset) ++
        (withheld (.ofText d text) offset).map Token.kind ∧
    (withheld (.ofText d text) offset).length ≤ 1 ∧
    ((∃ t ∈ withheld (.ofText d text) offset, t.kind.isMark = true) ↔
      ∃ t ∈ (TokenStream.ofText d text).tokens,
        t.index + 1 = (TokenStream.ofText d text).indexAt offset ∧
          isOverlooked t.kind = true) := by
  have hindexed := TokenStream.indexed_ofText d text
  refine ⟨index_eq_or _ offset, ?_, length_withheld_le hindexed offset, ?_⟩
  · rw [TokenStream.kindsBefore_ofText, TokenStream.kindsBefore_ofText, ← List.map_append]
    exact congrArg (List.map Token.kind) (shownBefore_indexAt hindexed offset)
  · constructor
    · rintro ⟨t, ht, hmark⟩
      obtain ⟨hmem, hnext, halone⟩ := (mem_withheld_iff hindexed).1 ht
      exact ⟨t, List.mem_of_mem_filter hmem, hnext, (isOverlooked_iff t.kind).2 ⟨hmark, halone⟩⟩
    · rintro ⟨t, ht, hnext, hoverlooked⟩
      obtain ⟨hmark, halone⟩ := (isOverlooked_iff t.kind).1 hoverlooked
      have hvisible : t ∈ (TokenStream.ofText d text).visible :=
        List.mem_filter.2 ⟨ht, by simp [isHidden_of_isOverlooked hoverlooked]⟩
      exact ⟨t, (mem_withheld_iff hindexed).2 ⟨hvisible, hnext, halone⟩, hmark⟩

/-- Where `||` puts texts together, a caret right behind it withholds it from the collector. -/
theorem concatPipes_withheld :
    withheld (.ofText { modes := [.pipesAsConcat] } "SELECT a||") 10 =
        [⟨.symbol .concatPipes, "||", ⟨8, 10⟩, 3⟩] ∧
      Terminal.isMark (.symbol .concatPipes) = true := by
  decide +kernel

end Caret

end SqlCompletion
