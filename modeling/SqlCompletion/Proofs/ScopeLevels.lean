import SqlCompletion.Engine.Scope
import SqlCompletion.Proofs.Withholding
set_option autoImplicit false

/-!
# `FROM` clauses by the level of parentheses

Tables are in scope by parentheses: in front of the caret every `FROM` counts that no unmatched
closing parenthesis is in front of, and behind the caret the first `FROM` outside of all
parentheses. Both searches keep a level that goes up and down with the parentheses that they see.
Here the levels are put as counts of parentheses (`opened`, `closed`, `levelFrom`), and what is
found is told by places of tokens.

* Behind the caret the tables are those of the first `FROM` outside of all parentheses
  (`trailing_outermost`), counted from the token on that the search starts with.
* In front of the caret they are those of every `FROM` in scope (`leading_scoped`), counted from the
  start of the text on.

Both searches treat the token that they start with in their own way: it is looked at for being a
`FROM`, and not for being a parenthesis. So with the caret on an opening parenthesis the search
behind it counts from inside (`trailing_of_open_start`), and a parenthesis that the text starts with
is closed by one that seems to leave the scope (`leading_of_open_start`). Both results say what is
found in these cases too.

The searches go over visible tokens, and their recursion is that over a list
(`firstFrom?_eq_some_iff`, `fromsBefore_eq_inScope`). What the clause of a `FROM` holds does not
matter here: it is a function of the token.
-/

namespace SqlCompletion.Scope

/-! ## Levels -/

/-- The number of opening parentheses. -/
def opened (tokens : List Token) : Nat := tokens.countP fun t => t.kind == .symbol .openPar

/-- The number of closing parentheses. -/
def closed (tokens : List Token) : Nat := tokens.countP fun t => t.kind == .symbol .closePar

/-- The level behind a token; a closing parenthesis outside of all others counts nothing. -/
def levelBehind (level : Nat) (t : Token) : Nat :=
  if t.kind = .symbol .openPar then level + 1
  else if t.kind = .symbol .closePar then level - 1
  else level

/-- The level behind some tokens. -/
def levelFrom (level : Nat) (tokens : List Token) : Nat := tokens.foldl levelBehind level

@[simp] theorem levelFrom_nil (level : Nat) : levelFrom level [] = level := rfl

@[simp] theorem levelFrom_cons (level : Nat) (t : Token) (tokens : List Token) :
    levelFrom level (t :: tokens) = levelFrom (levelBehind level t) tokens := rfl

/-! ## The first `FROM` outside of the parentheses -/

/-- The token at a place is a `FROM` outside of all parentheses. -/
def IsOuterFrom (level : Nat) (tokens : List Token) (place : Nat) (t : Token) : Prop :=
  tokens[place]? = some t ∧ t.kind = .keyword .FROM ∧ levelFrom level (tokens.take place) = 0

/-- The token is the first `FROM` outside of all parentheses. -/
def IsFirstFrom (level : Nat) (tokens : List Token) (t : Token) : Prop :=
  ∃ place, IsOuterFrom level tokens place t ∧ ∀ k < place, ∀ u, ¬IsOuterFrom level tokens k u

section

variable {level place : Nat} {tokens : List Token} {t u : Token}

theorem isOuterFrom_zero :
    IsOuterFrom level (u :: tokens) 0 t ↔ t = u ∧ u.kind = .keyword .FROM ∧ level = 0 := by
  unfold IsOuterFrom
  rw [List.getElem?_cons_zero, Option.some.injEq, List.take_zero, levelFrom_nil]
  constructor
  · rintro ⟨rfl, hfrom, hlevel⟩
    exact ⟨rfl, hfrom, hlevel⟩
  · rintro ⟨rfl, hfrom, hlevel⟩
    exact ⟨rfl, hfrom, hlevel⟩

theorem isOuterFrom_succ :
    IsOuterFrom level (u :: tokens) (place + 1) t ↔
      IsOuterFrom (levelBehind level u) tokens place t := by
  unfold IsOuterFrom
  rw [List.getElem?_cons_succ, List.take_succ_cons, levelFrom_cons]

theorem not_isFirstFrom_nil : ¬IsFirstFrom level [] t := by
  rintro ⟨place, ⟨hget, -, -⟩, -⟩
  cases hget

theorem isFirstFrom_of_outer (hfrom : u.kind = .keyword .FROM) (hlevel : level = 0) :
    IsFirstFrom level (u :: tokens) t ↔ u = t := by
  have houter : IsOuterFrom level (u :: tokens) 0 u := isOuterFrom_zero.2 ⟨rfl, hfrom, hlevel⟩
  constructor
  · rintro ⟨place, ht, hfirst⟩
    cases place with
    | zero => exact (isOuterFrom_zero.1 ht).1.symm
    | succ place => exact absurd houter (hfirst 0 (Nat.succ_pos place) u)
  · rintro rfl
    exact ⟨0, houter, fun k hk => absurd hk (Nat.not_lt_zero k)⟩

theorem isFirstFrom_of_not_outer (h : ¬(u.kind = .keyword .FROM ∧ level = 0)) :
    IsFirstFrom level (u :: tokens) t ↔ IsFirstFrom (levelBehind level u) tokens t := by
  have hnone : ∀ x, ¬IsOuterFrom level (u :: tokens) 0 x := fun x hx => h (isOuterFrom_zero.1 hx).2
  constructor
  · rintro ⟨place, ht, hfirst⟩
    cases place with
    | zero => exact absurd ht (hnone t)
    | succ place =>
      exact ⟨place, isOuterFrom_succ.1 ht, fun k hk x hx =>
        hfirst (k + 1) (Nat.succ_lt_succ hk) x (isOuterFrom_succ.2 hx)⟩
  · rintro ⟨place, ht, hfirst⟩
    refine ⟨place + 1, isOuterFrom_succ.2 ht, fun k hk x hx => ?_⟩
    cases k with
    | zero => exact hnone x hx
    | succ k => exact hfirst k (Nat.lt_of_succ_lt_succ hk) x (isOuterFrom_succ.1 hx)

/-- The search finds the first `FROM` outside of all parentheses. -/
theorem firstFrom?_eq_some_iff :
    firstFrom? level tokens = some t ↔ IsFirstFrom level tokens t := by
  fun_induction firstFrom? level tokens with
  | case1 level => exact iff_of_false (by simp) not_isFirstFrom_nil
  | case2 level u rest hopen ih =>
    rw [isFirstFrom_of_not_outer (by simp [hopen]), ih, levelBehind, if_pos hopen]
  | case3 level u rest hopen hclose ih =>
    rw [isFirstFrom_of_not_outer (by simp [hclose]), ih, levelBehind, if_neg hopen, if_pos hclose]
  | case4 level u rest _ _ hfrom =>
    rw [isFirstFrom_of_outer hfrom.1 hfrom.2, Option.some.injEq]
  | case5 level u rest hopen hclose hfrom ih =>
    rw [isFirstFrom_of_not_outer hfrom, ih, levelBehind, if_neg hopen, if_neg hclose]

end

variable {s : TokenStream} {index : Nat}

/-- Where no visible token stands, no `FROM` does. -/
theorem filter_isFrom_of_hidden (h : ∀ t, s.get? index = some t → t.isHidden = true) :
    (s.get? index).filter (fun t => t.kind == .keyword .FROM) = none := by
  cases ht : s.get? index with
  | none => rfl
  | some t =>
    have hfrom : t.kind ≠ .keyword .FROM := by
      intro hfrom
      have hhidden := h t ht
      simp [Token.isHidden, Token.channel, hfrom, Terminal.channel] at hhidden
    rw [Option.filter_some, if_neg (by simpa using hfrom)]

/-- The search from an index looks at all the visible tokens from there on, unless it starts on an
opening parenthesis. -/
theorem trailing?_of_not_open (h : ∀ t, s.get? index = some t → t.kind ≠ .symbol .openPar) :
    trailing? s index = firstFrom? 0 (s.shownFrom index) := by
  unfold trailing?
  by_cases hhidden : ∀ t, s.get? index = some t → t.isHidden = true
  · rw [filter_isFrom_of_hidden hhidden, TokenStream.shownFrom_eq_visibleAfter hhidden]
    rfl
  · push Not at hhidden
    obtain ⟨t, ht, hvisible⟩ := hhidden
    rw [TokenStream.shownFrom_eq_cons ht (by simpa using hvisible), ht, Option.filter_some,
      firstFrom?, if_neg (h t ht)]
    by_cases hclose : t.kind = .symbol .closePar
    · rw [if_neg (by simp [hclose]), if_pos hclose]
      rfl
    · by_cases hfrom : t.kind = .keyword .FROM
      · rw [if_pos (by simpa using hfrom), if_neg hclose, if_pos ⟨hfrom, rfl⟩]
        rfl
      · rw [if_neg (by simpa using hfrom), if_neg hclose, if_neg fun hboth => hfrom hboth.1]
        rfl

theorem trailing?_of_open {t : Token} (ht : s.get? index = some t)
    (hopen : t.kind = .symbol .openPar) :
    trailing? s index = firstFrom? 0 (s.visibleAfter index) := by
  unfold trailing?
  rw [ht, Option.filter_some, if_neg (by simp [hopen])]
  rfl

/-- The tables are those of the clause of the first `FROM` outside of all parentheses, and there are
none without such a token. -/
structure FirstClause (parser : Parser) (s : TokenStream) (tokens : List Token)
    (tables : List TableReference) : Prop where
  found : ∀ t, IsFirstFrom 0 tokens t → tables = clauseTables parser s t
  missing : (∀ t, ¬IsFirstFrom 0 tokens t) → tables = []

theorem firstClause_firstFrom? (parser : Parser) (s : TokenStream) (tokens : List Token) :
    FirstClause parser s tokens
      ((firstFrom? 0 tokens).toList.flatMap (clauseTables parser s)) where
  found := by
    intro t ht
    rw [firstFrom?_eq_some_iff.2 ht, Option.toList_some, List.flatMap_singleton]
  missing := by
    intro hnone
    have hsearch : firstFrom? 0 tokens = none :=
      Option.eq_none_iff_forall_ne_some.2 fun t ht => hnone t (firstFrom?_eq_some_iff.1 ht)
    rw [hsearch]
    rfl

/-- Behind the caret, the tables are those of the first `FROM` outside of all parentheses, counted
from the token on that the search starts with. Where that is an opening parenthesis, the search
counts from behind it. -/
theorem trailing_outermost (parser : Parser) (s : TokenStream) (index : Nat) :
    ((∀ t, s.get? index = some t → t.kind ≠ .symbol .openPar) →
      FirstClause parser s (s.shownFrom index)
        ((trailing? s index).toList.flatMap (clauseTables parser s))) ∧
    (∀ t, s.get? index = some t → t.kind = .symbol .openPar →
      FirstClause parser s (s.visibleAfter index)
        ((trailing? s index).toList.flatMap (clauseTables parser s))) := by
  constructor
  · intro hstart
    rw [trailing?_of_not_open hstart]
    exact firstClause_firstFrom? parser s _
  · intro t ht hopen
    rw [trailing?_of_open ht hopen]
    exact firstClause_firstFrom? parser s _

theorem trailing_outermost_subquery :
    let s := TokenStream.ofText {} "SELECT ) + (SELECT 1 FROM n) FROM t"
    (∀ t, s.get? 2 = some t → t.kind ≠ .symbol .openPar) ∧
    FirstClause (.mysql {}) s (s.shownFrom 2)
      ((trailing? s 2).toList.flatMap (clauseTables (.mysql {}) s)) :=
  have hstart : ∀ t,
      (TokenStream.ofText {} "SELECT ) + (SELECT 1 FROM n) FROM t").get? 2 = some t →
        t.kind ≠ .symbol .openPar := by
    decide +kernel
  ⟨hstart, (trailing_outermost (.mysql {}) _ 2).1 hstart⟩

/-- With the caret on a parenthesis, the first `FROM` outside of all of them is that of `outer_t`,
and the tables are those of the one that is inside. -/
theorem trailing_of_open_start :
    let s := TokenStream.ofText {} "SELECT (SELECT 1 FROM nested) FROM outer_t"
    ∃ t, IsFirstFrom 0 (s.shownFrom 2) t ∧
      (trailing? s 2).toList.flatMap (clauseTables (.mysql {}) s) ≠
        clauseTables (.mysql {}) s t := by
  have hfacts :
      let s := TokenStream.ofText {} "SELECT (SELECT 1 FROM nested) FROM outer_t"
      let outer : Token := ⟨.keyword .FROM, "FROM", ⟨30, 34⟩, 12⟩
      firstFrom? 0 (s.shownFrom 2) = some outer ∧
        (trailing? s 2).toList.flatMap (clauseTables (.mysql {}) s) ≠
          clauseTables (.mysql {}) s outer := by
    decide +kernel
  exact ⟨_, firstFrom?_eq_some_iff.1 hfacts.1, hfacts.2⟩

/-! ## `FROM` in scope -/

section

variable {level caretIndex place : Nat} {tokens : List Token} {t : Token}

/-- The closing parenthesis at a place is unmatched: up to it, there are more closing parentheses
than opening ones, `level` of which are open at the start. -/
def IsUnmatched (level : Nat) (tokens : List Token) (place : Nat) : Prop :=
  tokens[place]?.map Token.kind = some (.symbol .closePar) ∧
    level + opened (tokens.take (place + 1)) < closed (tokens.take (place + 1))

/-- There is an unmatched closing parenthesis among the tokens. -/
def LeavesFrom (level : Nat) (tokens : List Token) : Prop :=
  ∃ place < tokens.length, IsUnmatched level tokens place

instance : Decidable (IsUnmatched level tokens place) := inferInstanceAs (Decidable (_ ∧ _))

instance : Decidable (LeavesFrom level tokens) :=
  inferInstanceAs (Decidable (∃ place < tokens.length, IsUnmatched level tokens place))

/-- The tokens `FROM` with an index below the caret's that no unmatched closing parenthesis is in
front of. -/
def inScope (caretIndex level : Nat) (tokens : List Token) : List Token :=
  tokens.filter fun t => decide (t.kind = .keyword .FROM ∧ t.index < caretIndex ∧
    ¬LeavesFrom level (tokens.filter fun u => decide (u.index < t.index)))

theorem not_leavesFrom_nil : ¬LeavesFrom level [] := by
  rintro ⟨place, hlt, -⟩
  exact Nat.not_lt_zero place hlt

theorem isUnmatched_zero :
    IsUnmatched level (t :: tokens) 0 ↔ t.kind = .symbol .closePar ∧ level = 0 := by
  unfold IsUnmatched opened closed
  simp only [List.getElem?_cons_zero, Option.map_some, Option.some.injEq, Nat.zero_add,
    List.take_succ_cons, List.take_zero, List.countP_singleton]
  constructor
  · rintro ⟨hclose, hlt⟩
    simp only [hclose] at hlt
    exact ⟨hclose, by simpa using hlt⟩
  · rintro ⟨hclose, rfl⟩
    simp [hclose]

/-- Behind a token that does not leave the scope, the count goes on from the level there. -/
theorem isUnmatched_succ (h : ¬(t.kind = .symbol .closePar ∧ level = 0)) :
    IsUnmatched level (t :: tokens) (place + 1) ↔
      IsUnmatched (levelBehind level t) tokens place := by
  unfold IsUnmatched levelBehind opened closed
  rw [List.getElem?_cons_succ, List.take_succ_cons, List.countP_cons, List.countP_cons]
  refine and_congr_right fun _ => ?_
  by_cases hopen : t.kind = .symbol .openPar
  · simp [hopen]
    omega
  · by_cases hclose : t.kind = .symbol .closePar
    · have hlevel : level ≠ 0 := fun hzero => h ⟨hclose, hzero⟩
      simp [hclose]
      omega
    · simp [hopen, hclose]

theorem leavesFrom_cons :
    LeavesFrom level (t :: tokens) ↔
      (t.kind = .symbol .closePar ∧ level = 0) ∨ LeavesFrom (levelBehind level t) tokens := by
  by_cases hleaves : t.kind = .symbol .closePar ∧ level = 0
  · exact iff_of_true ⟨0, Nat.succ_pos _, isUnmatched_zero.2 hleaves⟩ (.inl hleaves)
  · constructor
    · rintro ⟨place, hlt, hplace⟩
      cases place with
      | zero => exact .inl (isUnmatched_zero.1 hplace)
      | succ place =>
        exact .inr ⟨place, Nat.lt_of_succ_lt_succ hlt, (isUnmatched_succ hleaves).1 hplace⟩
    · rintro (h | ⟨place, hlt, hplace⟩)
      · exact absurd h hleaves
      · exact ⟨place + 1, Nat.succ_lt_succ hlt, (isUnmatched_succ hleaves).2 hplace⟩

theorem inScope_of_le (h : ∀ u ∈ tokens, caretIndex ≤ u.index) :
    inScope caretIndex level tokens = [] := by
  refine List.filter_eq_nil_iff.2 fun u hu => ?_
  have hle := h u hu
  rw [decide_eq_true_eq]
  rintro ⟨-, hlt, -⟩
  omega

/-- The first of some tokens in the order of their indices has none in front of it, and is in front
of all the others. -/
theorem inScope_cons (h : ∀ u ∈ tokens, t.index < u.index) :
    inScope caretIndex level (t :: tokens) =
      (if t.kind = .keyword .FROM ∧ t.index < caretIndex then [t] else []) ++
        if t.kind = .symbol .closePar ∧ level = 0 then []
        else inScope caretIndex (levelBehind level t) tokens := by
  have hfront : (t :: tokens).filter (fun u => decide (u.index < t.index)) = [] := by
    refine List.filter_eq_nil_iff.2 fun u hu => ?_
    rw [decide_eq_true_eq, Nat.not_lt]
    rcases List.mem_cons.1 hu with rfl | hu
    · exact Nat.le_refl _
    · exact Nat.le_of_lt (h u hu)
  have hothers : ∀ x ∈ tokens, (t :: tokens).filter (fun u => decide (u.index < x.index)) =
      t :: tokens.filter fun u => decide (u.index < x.index) := fun x hx =>
    List.filter_cons_of_pos (decide_eq_true (h x hx))
  have hrest : tokens.filter (fun x => decide (x.kind = .keyword .FROM ∧ x.index < caretIndex ∧
      ¬LeavesFrom level ((t :: tokens).filter fun u => decide (u.index < x.index)))) =
        if t.kind = .symbol .closePar ∧ level = 0 then []
        else inScope caretIndex (levelBehind level t) tokens := by
    split
    · rename_i hleaves
      refine List.filter_eq_nil_iff.2 fun x hx => ?_
      rw [hothers x hx, decide_eq_true_eq]
      exact fun hall => hall.2.2 (leavesFrom_cons.2 (.inl hleaves))
    · rename_i hstays
      refine List.filter_congr fun x hx => ?_
      rw [hothers x hx, decide_eq_decide, leavesFrom_cons, or_iff_right hstays]
  unfold inScope
  rw [List.filter_cons, hfront, hrest]
  simp only [not_leavesFrom_nil, not_false_eq_true, and_true, decide_eq_true_eq]
  split <;> rfl

/-- The search in front of the caret finds what is in scope. -/
theorem fromsBefore_eq_inScope (h : tokens.Pairwise fun t u => t.index < u.index) :
    fromsBefore caretIndex level tokens = inScope caretIndex level tokens := by
  induction tokens generalizing level with
  | nil => rfl
  | cons t rest ih =>
    obtain ⟨hfirst, hrest⟩ := List.pairwise_cons.1 h
    rw [inScope_cons hfirst, fromsBefore.eq_def]
    dsimp only
    by_cases hcaret : caretIndex ≤ t.index
    · have hnone : ∀ u ∈ rest, caretIndex ≤ u.index := fun u hu =>
        Nat.le_trans hcaret (Nat.le_of_lt (hfirst u hu))
      rw [if_pos hcaret, if_neg fun hin => Nat.not_lt.2 hcaret hin.2, inScope_of_le hnone, ite_self,
        List.append_nil]
    · rw [if_neg hcaret]
      have hbelow : t.index < caretIndex := Nat.lt_of_not_le hcaret
      by_cases hopen : t.kind = .symbol .openPar
      · simp [hopen, ih hrest, levelBehind]
      · by_cases hclose : t.kind = .symbol .closePar
        · cases level with
          | zero => simp [hclose]
          | succ outer => simp [hclose, ih hrest, levelBehind]
        · by_cases hfrom : t.kind = .keyword .FROM
          · simp [hfrom, hbelow, ih hrest, levelBehind]
          · simp [hopen, hclose, hfrom, ih hrest, levelBehind]

end

theorem pairwise_index (h : s.Indexed) : s.tokens.Pairwise fun t u => t.index < u.index := by
  refine List.pairwise_iff_getElem.2 fun i j hi hj hlt => ?_
  rw [h i _ (List.getElem?_eq_getElem hi), h j _ (List.getElem?_eq_getElem hj)]
  exact hlt

/-- A `FROM` at the start of the text apart, the search counts from behind the first token. -/
theorem leading_eq (h : s.Indexed) (caretIndex : Nat) :
    leading s caretIndex = ((s.get? 0).filter fun t => t.kind == .keyword .FROM).toList ++
      inScope caretIndex 0 (s.visibleAfter 0) := by
  have hbehind : (s.visibleAfter 0).Pairwise fun t u => t.index < u.index :=
    ((pairwise_index h).sublist (List.drop_sublist 1 s.tokens)).filter _
  rw [← fromsBefore_eq_inScope hbehind]
  rfl

/-- The search looks at the first token as at the others if that is no parenthesis, and no `FROM`
that the caret is in front of. -/
theorem leading_of_start (h : s.Indexed) {caretIndex : Nat}
    (hstart : ∀ t, s.get? 0 = some t → t.kind ≠ .symbol .openPar ∧ t.kind ≠ .symbol .closePar ∧
      (t.kind = .keyword .FROM → 0 < caretIndex)) :
    leading s caretIndex = inScope caretIndex 0 s.visible := by
  have hall : s.visible = s.shownFrom 0 := rfl
  rw [leading_eq h, hall]
  by_cases hhidden : ∀ t, s.get? 0 = some t → t.isHidden = true
  · rw [filter_isFrom_of_hidden hhidden, TokenStream.shownFrom_eq_visibleAfter hhidden]
    rfl
  · push Not at hhidden
    obtain ⟨t, ht, hvisible⟩ := hhidden
    obtain ⟨hopen, hclose, hfrom⟩ := hstart t ht
    have hindex : t.index = 0 := h 0 t ht
    have hbehind : ∀ u ∈ s.visibleAfter 0, t.index < u.index := fun u hu =>
      hindex ▸ h.le_of_mem_drop (List.mem_of_mem_filter hu)
    have hlevel : levelBehind 0 t = 0 := by rw [levelBehind, if_neg hopen, if_neg hclose]
    have hstays : ¬(t.kind = .symbol .closePar ∧ 0 = 0) := fun hboth => hclose hboth.1
    rw [TokenStream.shownFrom_eq_cons ht (by simpa using hvisible), inScope_cons hbehind, hlevel,
      if_neg hstays, hindex, ht, Option.filter_some]
    by_cases hstarts : t.kind = .keyword .FROM
    · rw [if_pos (by simpa using hstarts), if_pos ⟨hstarts, hfrom hstarts⟩, Option.toList_some]
    · rw [if_neg (by simpa using hstarts), if_neg fun hboth => hstarts hboth.1]
      rfl

/-- In front of the caret, the tables are those of every `FROM` in scope, counted from the start of
the text on. Where the text starts with a parenthesis, or with a `FROM` that the caret is in front
of, that token is not looked at like the others: a parenthesis there is not counted, and a `FROM`
there is taken. -/
theorem leading_scoped (parser : Parser) (d : Dialect) (text : String) (caretIndex : Nat) :
    ((∀ t, (TokenStream.ofText d text).get? 0 = some t → t.kind ≠ .symbol .openPar ∧
        t.kind ≠ .symbol .closePar ∧ (t.kind = .keyword .FROM → 0 < caretIndex)) →
      (leading (.ofText d text) caretIndex).flatMap (clauseTables parser (.ofText d text)) =
        (inScope caretIndex 0 (TokenStream.ofText d text).visible).flatMap
          (clauseTables parser (.ofText d text))) ∧
    (leading (.ofText d text) caretIndex).flatMap (clauseTables parser (.ofText d text)) =
      (((TokenStream.ofText d text).get? 0).filter fun t => t.kind == .keyword .FROM).toList.flatMap
          (clauseTables parser (.ofText d text)) ++
        (inScope caretIndex 0 ((TokenStream.ofText d text).visibleAfter 0)).flatMap
          (clauseTables parser (.ofText d text)) := by
  have hindexed := TokenStream.indexed_ofText d text
  constructor
  · intro hstart
    rw [leading_of_start hindexed hstart]
  · rw [leading_eq hindexed, List.flatMap_append]

theorem leading_scoped_subquery :
    let s := TokenStream.ofText {} "SELECT * FROM (SELECT a FROM t) d WHERE "
    (∀ t, s.get? 0 = some t → t.kind ≠ .symbol .openPar ∧ t.kind ≠ .symbol .closePar ∧
      (t.kind = .keyword .FROM → 0 < 18)) ∧
    (leading s 18).flatMap (clauseTables (.mysql {}) s) =
      (inScope 18 0 s.visible).flatMap (clauseTables (.mysql {}) s) :=
  have hstart : ∀ t,
      (TokenStream.ofText {} "SELECT * FROM (SELECT a FROM t) d WHERE ").get? 0 = some t →
        t.kind ≠ .symbol .openPar ∧ t.kind ≠ .symbol .closePar ∧
          (t.kind = .keyword .FROM → 0 < 18) := by
    decide +kernel
  ⟨hstart, (leading_scoped (.mysql {}) {} _ 18).1 hstart⟩

/-- A parenthesis that the text starts with is closed by one that seems to leave the scope. -/
theorem leading_of_open_start :
    let s := TokenStream.ofText {} "(SELECT a FROM t1) UNION SELECT b FROM t2 WHERE "
    (leading s 21).flatMap (clauseTables (.mysql {}) s) ≠
      (inScope 21 0 s.visible).flatMap (clauseTables (.mysql {}) s) := by
  decide +kernel

end SqlCompletion.Scope
