import Mathlib.Data.List.Find
import SqlCompletion.Proofs.Naming
set_option autoImplicit false

/-!
# The token that the caret touches

A caret is given by a character, but only the token that holds the character matters. Any two carets
in one token get the same suggestions, and they get some unless the text is too large
(`complete_of_touch`). That holds whatever the collector is, and it is more than the suggestions
that agree: the statement, the index and the tables in scope do as well (`analyze_of_touch`).

The tokens of a text lie side by side, so whatever starts or ends with a token lies on one side of
all the characters that another token holds (`Span.Avoids`). Statements start and end with tokens.
So two carets in one token are in one statement (`spanAt_of_touch`), and in the statement by itself
they touch one token again (`indexAt_statement_of_touch`), as the tokens of the statement are those
of the text.

A semicolon is a token of one character, and the caret in front of it is in the statement that it
ends. The place at the end of the text is in no token here, and neither are offsets behind it.
-/

namespace SqlCompletion

/-- The place is not inside of the span. -/
def Span.Avoids (span : Span) (place : Nat) : Prop := place ≤ span.start ∨ span.stop ≤ place

/-- The characters of a span lie on one side of a place that the span avoids. -/
theorem Span.Avoids.le_iff {span : Span} {place o₁ o₂ : Nat} (h : span.Avoids place)
    (h₁ : span.contains o₁ = true) (h₂ : span.contains o₂ = true) : place ≤ o₁ ↔ place ≤ o₂ := by
  rw [Span.contains_iff] at h₁ h₂
  unfold Span.Avoids at h
  omega

namespace TokenStream

open TokenStream (pieces charsOf laid)

variable {d : Dialect} {source : String} {t u : Token} {o₁ o₂ : Nat}

/-! ## Tokens side by side -/

theorem length_charsOf_take_le {ps : List (Terminal × List Char)} {j k : Nat} (h : j ≤ k) :
    (charsOf (ps.take j)).length ≤ (charsOf (ps.take k)).length := by
  obtain ⟨n, rfl⟩ := Nat.exists_eq_add_of_le h
  rw [List.take_add, charsOf_append, List.length_append]
  exact Nat.le_add_right _ _

/-- No token reaches over the end of some first pieces. -/
theorem avoids_of_mem_laid {ps : List (Terminal × List Char)} (ht : t ∈ laid 0 0 ps) (k : Nat) :
    t.span.Avoids (charsOf (ps.take k)).length := by
  obtain ⟨j, hj⟩ := List.getElem?_of_mem ht
  rw [getElem?_laid] at hj
  obtain ⟨p, -, rfl⟩ := Option.map_eq_some_iff.1 hj
  simp only [Span.Avoids, Nat.zero_add]
  rcases Nat.lt_or_ge j k with hlt | hge
  · exact .inr (length_charsOf_take_le hlt)
  · exact .inl (length_charsOf_take_le hge)

/-- No token reaches over the end of another one. -/
theorem avoids_of_mem (ht : t ∈ (ofText d source).tokens) (hu : u ∈ (ofText d source).tokens) :
    t.span.Avoids u.span.stop := by
  rw [tokens_ofText] at ht hu
  obtain ⟨k, hk⟩ := List.getElem?_of_mem hu
  rw [getElem?_laid] at hk
  obtain ⟨p, -, rfl⟩ := Option.map_eq_some_iff.1 hk
  simp only [Nat.zero_add]
  exact avoids_of_mem_laid ht (k + 1)

section

variable (ht : t ∈ (ofText d source).tokens) (h₁ : t.span.contains o₁ = true)
  (h₂ : t.span.contains o₂ = true)

include ht h₁ h₂

/-- Two carets in one token have one index. -/
theorem indexAt_of_touch : (ofText d source).indexAt o₁ = (ofText d source).indexAt o₂ := by
  have htiles := (isLaid_ofText d source).tiles
  rw [htiles.indexAt_of_contains ht h₁, htiles.indexAt_of_contains ht h₂]

end

/-! ## Carets in one statement -/

theorem start_of_mem_spansFrom {span : Span} {start stop : Nat} {tokens : List Token}
    (h : span ∈ Statement.spansFrom start stop tokens) :
    span.start = start ∨ ∃ u ∈ tokens, span.start = u.span.stop := by
  induction tokens generalizing start with
  | nil =>
    rw [Statement.spansFrom, List.mem_singleton] at h
    exact .inl (congrArg Span.start h)
  | cons u tokens ih =>
    rw [Statement.spansFrom] at h
    split at h
    · rcases List.mem_cons.1 h with rfl | h
      · exact .inl rfl
      · right
        rcases ih h with hstart | ⟨x, hx, hstart⟩
        · exact ⟨u, List.mem_cons_self, hstart⟩
        · exact ⟨x, List.mem_cons_of_mem u hx, hstart⟩
    · rcases ih h with hstart | ⟨x, hx, hstart⟩
      · exact .inl hstart
      · exact .inr ⟨x, List.mem_cons_of_mem u hx, hstart⟩

section

variable (ht : t ∈ (ofText d source).tokens) (h₁ : t.span.contains o₁ = true)
  (h₂ : t.span.contains o₂ = true)

include ht

theorem lt_length_of_contains (h : t.span.contains o₁ = true) : o₁ < source.length :=
  Nat.lt_of_lt_of_le ((Span.contains_iff _ _).1 h).2 ((isLaid_ofText d source).tiles.inside t ht)

theorem ne_eof_of_contains (h : t.span.contains o₁ = true) : t.kind ≠ .eof :=
  (isLaid_ofText d source).tiles.kind_ne_eof ht h

include h₁ h₂

/-- Two carets in one token are in one statement. -/
theorem spanAt_of_touch :
    Statement.spanAt (ofText d source) o₁ = Statement.spanAt (ofText d source) o₂ := by
  unfold Statement.spanAt
  refine congrArg (Option.getD · _) (List.find?_congr fun span hspan => ?_)
  rw [decide_eq_decide]
  rcases start_of_mem_spansFrom (List.mem_reverse.1 hspan) with hzero | ⟨u, hu, hstop⟩
  · rw [hzero]
    simp
  · rw [hstop]
    exact (avoids_of_mem ht (visible_subset _ hu)).le_iff h₁ h₂

/-- In the statement by itself, two carets in one token have one index. -/
theorem indexAt_statement_of_touch :
    (ofText d (Statement.cut source (Statement.spanAt (ofText d source) o₁))).indexAt
        (o₁ - (Statement.spanAt (ofText d source) o₁).start) =
      (ofText d (Statement.cut source (Statement.spanAt (ofText d source) o₁))).indexAt
        (o₂ - (Statement.spanAt (ofText d source) o₁).start) := by
  have hle₁ := Nat.le_of_lt (lt_length_of_contains ht h₁)
  have hle₂ := Nat.le_of_lt (lt_length_of_contains ht h₂)
  have hsame := spanAt_of_touch ht h₁ h₂
  obtain ⟨front, inside, behind, hpieces, -, hfront, hinside₁, hspan, -⟩ :=
    exists_statement d source hle₁
  obtain ⟨front₂, inside₂, behind₂, -, -, -, hinside₂, hspan₂, -⟩ :=
    exists_statement d source hle₂
  rw [← hsame, hspan] at hspan₂
  rw [← (Span.mk.inj hspan₂).2] at hinside₂
  obtain ⟨hisolated, -, -⟩ := Statement.spanAt_isolated d source hle₁
  -- The statement starts and ends where pieces do.
  have hstart : t.span.Avoids (charsOf front).length := by
    have havoids := avoids_of_mem_laid (tokens_ofText d source ▸ ht) front.length
    rwa [hpieces, List.append_assoc, List.append_assoc, List.take_left] at havoids
  have hstop : t.span.Avoids (charsOf (front ++ inside)).length := by
    have havoids := avoids_of_mem_laid (tokens_ofText d source ▸ ht) (front ++ inside).length
    rwa [hpieces, List.append_assoc (front ++ inside), List.take_left] at havoids
  have hmem := (Span.contains_iff _ _).1 h₁
  have hmem₂ := (Span.contains_iff _ _).1 h₂
  unfold Span.Avoids at hstart hstop
  rw [hspan] at hisolated ⊢
  rcases hstop with hbehind | hwithin
  · -- The token follows the statement, so both carets are at its end.
    have heq : o₁ = o₂ := by omega
    rw [heq]
  · have hin : isIn ⟨(charsOf front).length, (charsOf (front ++ inside)).length⟩ t = true := by
      simp only [isIn, Bool.and_eq_true, decide_eq_true_eq, bne_iff_ne]
      exact ⟨⟨by omega, hwithin⟩, ne_eof_of_contains ht h₁⟩
    obtain ⟨places, htokens⟩ := hisolated.tokens
    have hmoved := List.mem_filter.2 ⟨ht, hin⟩
    rw [htokens] at hmoved
    obtain ⟨u, hu, rfl⟩ := List.mem_map.1 hmoved
    simp only [Span.shift] at hmem hmem₂
    refine indexAt_of_touch (List.dropLast_subset _ hu) ?_ ?_
    · rw [Span.contains_iff]
      dsimp only
      omega
    · rw [Span.contains_iff]
      dsimp only
      omega

end

end TokenStream

/-! ## The request -/

namespace Engine

variable {options : Options} {collector : Collector} {text : String} {t : Token} {o₁ o₂ : Nat}

/-- A request for a statement looks at the caret through the token that it touches. -/
theorem analyzeStatement_congr (e : Engine) (statement : Span) (text : String)
    (h : (e.parser text .query).stream.indexAt o₁ = (e.parser text .query).stream.indexAt o₂) :
    e.analyzeStatement statement text o₁ = e.analyzeStatement statement text o₂ := by
  unfold analyzeStatement Caret.index
  dsimp only
  rw [h]

/-- Two carets in one token bring the same to light: the same statement, index, tables in scope and
suggestions. -/
theorem analyze_of_touch (ht : t ∈ (TokenStream.ofText options.dialect text).tokens)
    (h₁ : t.span.contains o₁ = true) (h₂ : t.span.contains o₂ = true) :
    (withCollector options collector).analyze text o₁ =
      (withCollector options collector).analyze text o₂ := by
  have hle₁ := Nat.le_of_lt (TokenStream.lt_length_of_contains ht h₁)
  have hle₂ := Nat.le_of_lt (TokenStream.lt_length_of_contains ht h₂)
  have hspan := TokenStream.spanAt_of_touch ht h₁ h₂
  have hindex := TokenStream.indexAt_statement_of_touch ht h₁ h₂
  have hstatement := analyzeStatement_congr (withCollector options collector)
    (Statement.spanAt (.ofText options.dialect text) o₁)
    (Statement.cut text (Statement.spanAt (.ofText options.dialect text) o₁)) hindex
  have hstream : ((withCollector options collector).parser text .query).stream =
      .ofText options.dialect text := rfl
  unfold analyze resolveOffset
  rw [if_pos hle₁, if_pos hle₂]
  split
  · rfl
  · simp only [bind, Except.bind, pure, Except.pure, hstream, ← hspan]
    rw [← Statement.cut, hstatement]

/-- Whatever the collector is, two carets in one token get the same suggestions, and they get some
unless the text is too large. -/
theorem complete_of_touch (ht : t ∈ (TokenStream.ofText options.dialect text).tokens)
    (h₁ : t.span.contains o₁ = true) (h₂ : t.span.contains o₂ = true) :
    (withCollector options collector).complete text o₁ =
        (withCollector options collector).complete text o₂ ∧
      (text.utf8ByteSize ≤ maxTextBytes →
        ∃ items, (withCollector options collector).complete text o₁ = .ok items) := by
  constructor
  · unfold complete
    rw [analyze_of_touch ht h₁ h₂]
  · intro hsize
    obtain ⟨analysis, hok, -, -⟩ := analyze_eq options collector hsize
      (Nat.le_of_lt (TokenStream.lt_length_of_contains ht h₁))
    refine ⟨analysis.items, ?_⟩
    rw [complete, hok]
    rfl

/-- Both sides of a semicolon and of a line feed in a quoted text, in the second statement. -/
theorem complete_of_touch_quoted :
    (mysql {}).complete "SELECT 1; SELECT 'a;\nb' FROM t" 18 =
        (mysql {}).complete "SELECT 1; SELECT 'a;\nb' FROM t" 22 ∧
      ∃ items, (mysql {}).complete "SELECT 1; SELECT 'a;\nb' FROM t" 18 = .ok items := by
  have ht : ⟨.symbol .singleQuotedText, "'a;\nb'", ⟨17, 23⟩, 7⟩ ∈
      (TokenStream.ofText {} "SELECT 1; SELECT 'a;\nb' FROM t").tokens := by decide +kernel
  have hboth := @complete_of_touch {} (.mysql {}) _ _ 18 22 ht rfl rfl
  exact ⟨hboth.1, hboth.2 (by decide +kernel)⟩

end Engine

end SqlCompletion
