import SqlCompletion.Proofs.Naming
import SqlCompletion.Scanner
set_option autoImplicit false

/-!
# Where a clause ends

A clause is cut off in front of the first visible token that ends it. Whether a token does is told
here by what stands between the start of the clause and the token (`TokenStream.EndsClauseAt`): as
many parentheses are opened there as closed, and the token closes one more or starts another clause.

The main result is `clauseText_cut`. The clause at any token of a text reaches exactly up to the
first such token, or to the end of the stream if there is none; its text is what the source has from
the one place to the other, and a start of all the text from there on. In front of its end no
parenthesis is closed that was not opened.

The search keeps a level, the last visible token and the one before it. These are counts and last
elements of the tokens that it has passed (`Counted`), and one step of the search is one token more
(`Counted.next`). The last two visible tokens matter where a word that starts clauses belongs to an
index hint (`Terminal.GoesOn`): `FOR` behind `INDEX` or `KEY`, and `GROUP` or `ORDER` behind such a
`FOR`.

The first token of a clause never ends it, whatever it is, unless it is a closing parenthesis.
Whether the text that is cut off is read as it was in the whole text is a question of its own.
-/

namespace SqlCompletion

/-! ## What ends a clause -/

namespace Terminal

/-- A keyword that starts another clause, a set operator or a semicolon. -/
def startsClause : Terminal → Bool
  | .keyword .WHERE | .keyword .GROUP | .keyword .HAVING | .keyword .ORDER | .keyword .LIMIT
  | .keyword .WINDOW | .keyword .FOR | .keyword .LOCK | .keyword .INTO
  | .keyword .UNION | .keyword .EXCEPT | .keyword .INTERSECT | .symbol .semicolon => true
  | _ => false

/-- What belongs to an index hint starts no clause: `FOR` directly behind `INDEX` or `KEY`, and
`GROUP` or `ORDER` directly behind `FOR`. -/
def GoesOn (previous? : Option Terminal) (t : Terminal) : Prop :=
  (t = .keyword .FOR ∧ (previous? = some (.keyword .INDEX) ∨ previous? = some (.keyword .KEY))) ∨
  ((t = .keyword .GROUP ∨ t = .keyword .ORDER) ∧ previous? = some (.keyword .FOR))

theorem endsClause_iff (t : Terminal) (previous? : Option Terminal) :
    t.endsClause (previous?.getD .invalid) = true ↔
      t.startsClause = true ∧ ¬GoesOn previous? t := by
  have hword : ∀ k : Keyword,
      previous?.getD .invalid = .keyword k ↔ previous? = some (.keyword k) := by
    intro k
    cases previous? with
    | none => simp [Terminal.invalid]
    | some previous => simp
  unfold endsClause
  split
  case h_14 hother =>
    have hnot : t.startsClause = false := by
      unfold startsClause
      split <;> simp_all
    simp [hnot]
  all_goals simp [startsClause, GoesOn, hword]

end Terminal

/-! ## The first end -/

/-- The terminals of the visible tokens among some. -/
def kindsOf (tokens : List Token) : List Terminal :=
  (tokens.filter fun t => !t.isHidden).map Token.kind

/-- As many parentheses are opened as closed. -/
def Level (kinds : List Terminal) : Prop :=
  kinds.count (.symbol .openPar) = kinds.count (.symbol .closePar)

/-- The clause that starts with some tokens ends in front of the token at a place: it is visible, as
many parentheses are opened as closed in front of it, and it closes one more or, unless it is the
first token, starts another clause. -/
def EndsAt (tokens : List Token) (place : Nat) : Prop :=
  ∃ t, tokens[place]? = some t ∧ t.isHidden = false ∧ Level (kindsOf (tokens.take place)) ∧
    (t.kind = .symbol .closePar ∨
      0 < place ∧ t.kind.startsClause = true ∧
        ¬Terminal.GoesOn (kindsOf (tokens.take place)).getLast? t.kind)

section

variable {tokens front rest : List Token} {t : Token} {n : Nat}

theorem kindsOf_concat_hidden (h : t.isHidden = true) : kindsOf (front ++ [t]) = kindsOf front := by
  simp [kindsOf, h]

theorem kindsOf_concat_visible (h : t.isHidden = false) :
    kindsOf (front ++ [t]) = kindsOf front ++ [t.kind] := by
  simp [kindsOf, h]

/-- The end of a clause does not depend on what stands behind it. -/
theorem endsAt_append_cons : EndsAt (front ++ t :: rest) front.length ↔
    t.isHidden = false ∧ Level (kindsOf front) ∧
      (t.kind = .symbol .closePar ∨
        0 < front.length ∧ t.kind.startsClause = true ∧
          ¬Terminal.GoesOn (kindsOf front).getLast? t.kind) := by
  simp [EndsAt]

/-- Up to the first end of a clause, no parenthesis is closed that was not opened. -/
theorem count_closePar_le (h : ∀ k < n, ¬EndsAt tokens k) :
    (kindsOf (tokens.take n)).count (.symbol .closePar) ≤
      (kindsOf (tokens.take n)).count (.symbol .openPar) := by
  induction n with
  | zero => exact Nat.le_refl _
  | succ n ih =>
    have hbefore := ih fun k hk => h k (Nat.lt_succ_of_lt hk)
    rw [List.take_add_one]
    cases ht : tokens[n]? with
    | none => simpa using hbefore
    | some t =>
      rw [Option.toList_some]
      cases hhidden : t.isHidden with
      | true => rwa [kindsOf_concat_hidden hhidden]
      | false =>
        rw [kindsOf_concat_visible hhidden, List.count_append, List.count_append]
        by_cases hclose : t.kind = .symbol .closePar
        · -- The one that is closed here is open, or the clause ends here.
          have hlevel : ¬Level (kindsOf (tokens.take n)) := fun hlevel =>
            h n (Nat.lt_succ_self n) ⟨t, ht, hhidden, hlevel, .inl hclose⟩
          have hlt := Nat.lt_of_le_of_ne hbefore fun heq => hlevel heq.symm
          simp only [hclose, List.count_singleton_self]
          omega
        · have hnone : [t.kind].count (.symbol .closePar) = 0 := by simp [hclose]
          omega

/-- The place is the first at which the clause ends; a clause that ends nowhere reaches as far as
the tokens. -/
def IsFirstEnd (tokens : List Token) (stop : Nat) : Prop :=
  (∀ k < stop, ¬EndsAt tokens k) ∧ (EndsAt tokens stop ∨ stop = tokens.length)

/-- The tokens in front are counted: the clause does not end among them, they open `level` more
parentheses than they close, and `previous` is the last visible one of them. -/
structure Counted (front rest : List Token) (count level : Nat) (previous : Terminal) : Prop where
  length : front.length = count
  level : (kindsOf front).count (.symbol .openPar) =
    (kindsOf front).count (.symbol .closePar) + level
  previous : (kindsOf front).getLast?.getD .invalid = previous
  inside : ∀ k < count, ¬EndsAt (front ++ rest) k

section

variable {count level : Nat} {previous : Terminal}

theorem counted_nil : Counted [] rest 0 0 .invalid :=
  ⟨rfl, rfl, rfl, fun k hk => absurd hk (Nat.not_lt_zero k)⟩

theorem Counted.level_iff (h : Counted front rest count level previous) :
    Level (kindsOf front) ↔ level = 0 := by
  have hlevel := h.level
  unfold Level
  omega

theorem Counted.endsAt_iff (h : Counted front (t :: rest) count level previous) :
    EndsAt (front ++ t :: rest) count ↔ t.isHidden = false ∧ level = 0 ∧
      (t.kind = .symbol .closePar ∨ 0 < count ∧ t.kind.endsClause previous = true) := by
  rw [← h.length, endsAt_append_cons, h.level_iff, ← h.previous, Terminal.endsClause_iff]

/-- One token more that does not end the clause. -/
theorem Counted.next (h : Counted front (t :: rest) count level previous)
    (hnot : ¬EndsAt (front ++ t :: rest) count) {level' : Nat} {previous' : Terminal}
    (hlevel : (kindsOf (front ++ [t])).count (.symbol .openPar) =
      (kindsOf (front ++ [t])).count (.symbol .closePar) + level')
    (hprevious : (kindsOf (front ++ [t])).getLast?.getD .invalid = previous') :
    Counted (front ++ [t]) rest (count + 1) level' previous' where
  length := by rw [List.length_append, List.length_singleton, h.length]
  level := hlevel
  previous := hprevious
  inside := by
    intro k hk
    rw [List.append_assoc, List.singleton_append]
    rcases Nat.lt_succ_iff_lt_or_eq.1 hk with hk | rfl
    · exact h.inside k hk
    · exact hnot

theorem Counted.hidden (h : Counted front (t :: rest) count level previous)
    (ht : t.isHidden = true) : Counted (front ++ [t]) rest (count + 1) level previous := by
  refine h.next (fun hends => ?_) ?_ ?_
  · rw [h.endsAt_iff, ht] at hends
    cases hends.1
  · rw [kindsOf_concat_hidden ht]
    exact h.level
  · rw [kindsOf_concat_hidden ht]
    exact h.previous

theorem Counted.visible (h : Counted front (t :: rest) count level previous)
    (ht : t.isHidden = false) (hnot : ¬EndsAt (front ++ t :: rest) count) {level' : Nat}
    (hlevel : level + [t.kind].count (.symbol .openPar) =
      level' + [t.kind].count (.symbol .closePar)) :
    Counted (front ++ [t]) rest (count + 1) level' t.kind := by
  have hfront := h.level
  refine h.next hnot ?_ ?_
  · rw [kindsOf_concat_visible ht, List.count_append, List.count_append]
    omega
  · rw [kindsOf_concat_visible ht, List.getLast?_concat, Option.getD_some]

theorem Counted.isFirstEnd_here (h : Counted front (t :: rest) count level previous)
    (hends : EndsAt (front ++ t :: rest) count) : IsFirstEnd (front ++ t :: rest) count :=
  ⟨h.inside, .inl hends⟩

/-- The counting of a clause stops in front of the first token that ends it. -/
theorem Counted.isFirstEnd (h : Counted front rest count level previous) :
    IsFirstEnd (front ++ rest) (TokenStream.clauseLength count level previous rest) := by
  have hnext : ∀ {front rest : List Token} {t : Token} {n : Nat},
      IsFirstEnd (front ++ [t] ++ rest) n → IsFirstEnd (front ++ t :: rest) n := by
    intro front rest t n hfirst
    rwa [List.append_assoc, List.singleton_append] at hfirst
  fun_induction TokenStream.clauseLength count level previous rest generalizing front with
  | case1 count level previous => exact ⟨h.inside, .inr (by simp [h.length])⟩
  | case2 count level previous t rest hhidden ih => exact hnext (ih (h.hidden hhidden))
  | case3 count level previous t rest hvisible hopen ih =>
    rw [Bool.not_eq_true] at hvisible
    refine hnext (ih (h.visible hvisible (fun hends => ?_) (by simp [hopen])))
    rw [h.endsAt_iff, hopen] at hends
    obtain ⟨-, -, hclose | ⟨-, hends⟩⟩ := hends
    · cases hclose
    · cases hends
  | case4 count previous t rest hvisible _ hclose =>
    rw [Bool.not_eq_true] at hvisible
    exact h.isFirstEnd_here (h.endsAt_iff.2 ⟨hvisible, rfl, .inl hclose⟩)
  | case5 count previous t rest hvisible hopen hclose outer ih =>
    rw [Bool.not_eq_true] at hvisible
    refine hnext (ih (h.visible hvisible (fun hends => ?_) (by simp [hclose])))
    exact absurd (h.endsAt_iff.1 hends).2.1 (Nat.succ_ne_zero outer)
  | case6 count level previous t rest hvisible _ _ hends =>
    rw [Bool.not_eq_true] at hvisible
    exact h.isFirstEnd_here (h.endsAt_iff.2 ⟨hvisible, hends.2.1, .inr ⟨hends.1, hends.2.2⟩⟩)
  | case7 count level previous t rest hvisible hopen hclose hgoesOn ih =>
    rw [Bool.not_eq_true] at hvisible
    refine hnext (ih (h.visible hvisible (fun hends => ?_) (by simp [hopen, hclose])))
    obtain ⟨-, hlevel, hkind | hends⟩ := h.endsAt_iff.1 hends
    · exact hclose hkind
    · exact hgoesOn ⟨hends.1, hlevel, hends.2⟩

end

end

/-! ## The text of a clause -/

namespace TokenStream

/-- The terminals of the visible tokens from the one at `i` on, up to the one at `j`, which is left
out. -/
def kindsBetween (s : TokenStream) (i j : Nat) : List Terminal :=
  kindsOf ((s.tokens.drop i).take (j - i))

/-- The clause that starts at `i` ends in front of the token at `j`: it is visible, as many
parentheses are opened as closed in between, and it closes one more or, unless the clause starts
with it, starts another one. -/
def EndsClauseAt (s : TokenStream) (i j : Nat) : Prop :=
  i ≤ j ∧ ∃ t, s.get? j = some t ∧ t.isHidden = false ∧ Level (s.kindsBetween i j) ∧
    (t.kind = .symbol .closePar ∨
      i < j ∧ t.kind.startsClause = true ∧
        ¬Terminal.GoesOn (s.kindsBetween i j).getLast? t.kind)

/-- Where the token at an index starts; behind the last one, the text has ended. -/
def startAt (s : TokenStream) (index : Nat) : Nat :=
  (s.get? index).elim s.charLength fun t => t.span.start

variable {s : TokenStream} {i n : Nat}

theorem endsClauseAt_add : s.EndsClauseAt i (i + n) ↔ EndsAt (s.tokens.drop i) n := by
  unfold EndsClauseAt EndsAt kindsBetween
  rw [Nat.add_sub_cancel_left, List.getElem?_drop, get?]
  simp

theorem startAt_ofText (d : Dialect) (source : String) (index : Nat) :
    (ofText d source).startAt index =
      (charsOf ((pieces d source.toList).take index)).length := by
  have hlength : (ofText d source).size = (pieces d source.toList).length := by
    rw [size, tokens_ofText, length_laid]
  unfold startAt get?
  cases ht : (ofText d source).tokens[index]? with
  | none =>
    have hall := List.getElem?_eq_none_iff.1 ht
    rw [Option.elim_none, charLength_ofText, List.take_of_length_le (hlength ▸ hall),
      charsOf_pieces, String.length_toList]
  | some t =>
    rw [tokens_ofText] at ht
    obtain ⟨p, -, rfl⟩ := exists_of_getElem?_laid ht
    rfl

end TokenStream

namespace Scanner

open TokenStream (charsOf pieces)

theorem start_span (s : Scanner) : s.span.start = s.stream.startAt s.index := by
  unfold span token? TokenStream.startAt
  cases s.stream.get? s.index with
  | none => rfl
  | some t => rfl

/-- The clause at the scanner is cut off in front of the token at `stop`: that is the first one that
ends it, or the end of the stream if there is none. Its text is what the source has from the current
token up to there, and no parenthesis is closed in it that was not opened there. -/
structure CutsAt (s : Scanner) (stop : Nat) : Prop where
  le : s.index ≤ stop
  before : ∀ k < stop, ¬s.stream.EndsClauseAt s.index k
  ends : s.stream.EndsClauseAt s.index stop ∨ stop = s.stream.size
  text : Fragment s.stream.source ⟨s.span.start, s.stream.startAt stop⟩ s.clauseText
  matched : ∀ k ≤ stop, (s.stream.kindsBetween s.index k).count (.symbol .closePar) ≤
    (s.stream.kindsBetween s.index k).count (.symbol .openPar)

theorem fragment_clause (d : Dialect) (source : String) (i n : Nat)
    (hn : n = TokenStream.clauseLength 0 0 .invalid ((TokenStream.ofText d source).tokens.drop i)) :
    let s : Scanner := ⟨.ofText d source, i⟩
    Fragment source ⟨s.span.start, s.stream.startAt (i + n)⟩ s.clauseText := by
  intro s
  have hpieces := TokenStream.fragment_pieces d source i n
  rw [← List.length_append, ← TokenStream.charsOf_append, ← List.take_add,
    ← TokenStream.startAt_ofText, ← TokenStream.startAt_ofText, hn, ← TokenStream.clauseText_eq,
    ← hn] at hpieces
  rwa [start_span]

/-- The clause at any token of a text is cut off where it first ends, and its text is the start of
the text from there on. -/
theorem clauseText_cut (d : Dialect) (source : String) {i : Nat}
    (hi : i < (TokenStream.ofText d source).size) :
    let s : Scanner := ⟨.ofText d source, i⟩
    (∃ stop, s.CutsAt stop) ∧ s.clauseText.toList <+: s.restText.toList := by
  intro s
  let n := TokenStream.clauseLength 0 0 .invalid (s.stream.tokens.drop i)
  obtain ⟨hbefore, hends⟩ : IsFirstEnd (s.stream.tokens.drop i) n := counted_nil.isFirstEnd
  have hfragment := fragment_clause d source i n rfl
  constructor
  · refine ⟨i + n, Nat.le_add_right i n, fun k hk h => ?_, ?_, hfragment, fun k hk => ?_⟩
    · obtain ⟨m, rfl⟩ := Nat.exists_eq_add_of_le h.1
      exact hbefore m (Nat.lt_of_add_lt_add_left hk) (TokenStream.endsClauseAt_add.1 h)
    · refine hends.imp TokenStream.endsClauseAt_add.2 fun hall => ?_
      rw [List.length_drop] at hall
      rw [hall, TokenStream.size]
      exact Nat.add_sub_cancel' (Nat.le_of_lt hi)
    · have hle : k - i ≤ n := Nat.sub_le_iff_le_add'.2 hk
      exact count_closePar_le fun m hm => hbefore m (Nat.lt_of_lt_of_le hm hle)
  · obtain ⟨before, behind, htext, hspan⟩ := hfragment
    have hstart : s.span.start = before.length := congrArg Span.start hspan
    have hrest : s.restText.toList = s.clauseText.toList ++ behind := by
      rw [restText, TokenStream.textFrom, String.toList_ofList, hstart]
      show source.toList.drop before.length = _
      rw [htext, List.append_assoc, List.drop_left]
    exact ⟨behind, hrest.symm⟩

/-- An index hint keeps its `FOR` and its `ORDER`; the next `ORDER` ends the clause. -/
theorem clauseText_cut_indexHint :
    let stream := TokenStream.ofText {} "SELECT 1 FROM t USE INDEX FOR ORDER BY (i) ORDER BY i"
    let s : Scanner := ⟨stream, 4⟩
    4 < stream.size ∧ s.clauseText = "FROM t USE INDEX FOR ORDER BY (i) " ∧
      (∃ stop, s.CutsAt stop) ∧ s.clauseText.toList <+: s.restText.toList := by
  have hindex : 4 < (TokenStream.ofText {}
      "SELECT 1 FROM t USE INDEX FOR ORDER BY (i) ORDER BY i").size := by decide +kernel
  exact ⟨hindex, by decide +kernel, clauseText_cut {} _ hindex⟩

end Scanner

end SqlCompletion
