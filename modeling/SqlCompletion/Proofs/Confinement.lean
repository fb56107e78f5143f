import SqlCompletion.Proofs.Nesting
import SqlCompletion.Proofs.TableReading
import SqlCompletion.Proofs.TableRecognition
set_option autoImplicit false

/-!
# Closing parentheses that were not opened

No reader of a clause goes beyond a parenthesis that closes more than was opened. Whatever stands
behind it, the readers find the same tables in front of it and stop at the same place
(`list_confined`). So the tables that are found in balanced tokens with such a parenthesis behind
them are drawn from these tokens, and from the parenthesis at most (`list_drawn`).

That is how a clause comes to an end in the wrong place. Where a list is read of tokens that are
none, as of the arguments of a function, the parenthesis behind them ends the clause, and what is
read of them is all that can leak.

Two kinds of tokens would break this and are excluded (`Guarded`): inside of braces parentheses are
not counted, and behind the `FOR` of an index hint a token is passed over without being looked at,
which could be the parenthesis. `Shut` says how many groups the tokens close that are open in front
of them, and splits at each reader's end.

`Confined` is the property that a function keeps, and it is shown for one reader after another, from
passing over a token (`passOver_confined`) up to lists, by the room for groups. The parenthesis
itself may be taken by a reader, as the close of a group that was opened in front of the tokens. Of
tokens without such a parenthesis nothing is said.
-/

namespace SqlCompletion.FromClause

/-! ## Tokens in front of such a parenthesis -/

/-- No token opens a brace, and behind `FOR` there is a token that closes nothing. -/
inductive Guarded : List Token → Prop
  | nil : Guarded []
  | cons {t : Token} {ts : List Token} (hbrace : t.kind ≠ .symbol .openCurly)
      (hnext : t.kind = .keyword .FOR → ts ≠ [] ∧ headKind ts ≠ .symbol .closePar)
      (hrest : Guarded ts) : Guarded (t :: ts)

/-- The tokens close so many groups that are open in front of them, and all that they open. -/
structure Shut (n : Nat) (ts : List Token) : Prop where
  closes : Closes noStop noStop n ts
  guarded : Guarded ts

section

variable {n m : Nat} {t closing : Token} {ts us : List Token}

theorem Guarded.append (hts : Guarded ts) (hus : Guarded us) : Guarded (ts ++ us) := by
  induction hts with
  | nil => exact hus
  | @cons t ts hbrace hnext _ ih =>
    refine .cons hbrace (fun hfor => ?_) ih
    obtain ⟨hne, hclose⟩ := hnext hfor
    obtain ⟨u, rest, rfl⟩ := List.exists_cons_of_ne_nil hne
    exact ⟨List.cons_ne_nil _ _, hclose⟩

/-- In front of a closing parenthesis and behind it. -/
theorem Guarded.split (hclose : closing.kind = .symbol .closePar)
    (h : Guarded (ts ++ closing :: us)) : Guarded ts ∧ Guarded us := by
  induction ts with
  | nil =>
    cases h with
    | cons _ _ hrest => exact ⟨.nil, hrest⟩
  | cons t ts ih =>
    cases h with
    | cons hbrace hnext hrest =>
      obtain ⟨hts, hus⟩ := ih hrest
      refine ⟨.cons hbrace (fun hfor => ?_) hts, hus⟩
      obtain ⟨-, hhead⟩ := hnext hfor
      cases ts with
      | nil => exact absurd hclose hhead
      | cons u ts => exact ⟨List.cons_ne_nil _ _, hhead⟩

theorem guarded_close (hclose : closing.kind = .symbol .closePar) (h : Guarded us) :
    Guarded (closing :: us) := by
  refine .cons ?_ (fun hfor => ?_) h
  · rw [hclose]
    decide
  · rw [hclose] at hfor
    cases hfor

theorem Shut.eq_zero (h : Shut n []) : n = 0 := by
  obtain ⟨hcloses, -⟩ := h
  generalize hts : ([] : List Token) = ts at hcloses
  cases hcloses with
  | none => rfl
  | group => simp at hts

theorem Shut.tail_of_open (h : Shut n (t :: ts)) (ht : t.kind = .symbol .openPar) :
    Shut (n + 1) ts := by
  obtain ⟨hcloses, hguarded⟩ := h
  cases hguarded with
  | cons _ _ hrest =>
    refine ⟨?_, hrest⟩
    generalize hts : t :: ts = all at hcloses
    cases hcloses with
    | none h =>
      subst hts
      cases h with
      | plain hplain =>
        rw [ht] at hplain
        cases hplain
      | group _ hclose hinside hafter => exact .group hinside hclose (.none hafter)
    | @group n inside rest closing hinside hclose hafter =>
      cases hinside with
      | nil =>
        obtain ⟨rfl, rfl⟩ := List.cons.inj hts
        rw [ht] at hclose
        cases hclose
      | plain hplain =>
        obtain ⟨rfl, rfl⟩ := List.cons.inj hts
        rw [ht] at hplain
        cases hplain
      | group _ hclose' hinside' hbetween =>
        rw [List.cons_append, List.append_assoc, List.cons_append] at hts
        obtain ⟨rfl, rfl⟩ := List.cons.inj hts
        exact .group hinside' hclose' (.group hbetween hclose hafter)

theorem Shut.tail_of_close (h : Shut n (t :: ts)) (ht : t.kind = .symbol .closePar) :
    ∃ m, n = m + 1 ∧ Shut m ts := by
  obtain ⟨hcloses, hguarded⟩ := h
  cases hguarded with
  | cons _ _ hrest =>
    generalize hts : t :: ts = all at hcloses
    cases hcloses with
    | none h =>
      subst hts
      cases h with
      | plain hplain =>
        rw [ht] at hplain
        cases hplain
      | group hopen =>
        rw [ht] at hopen
        cases hopen
    | @group n inside rest closing hinside hclose hafter =>
      cases hinside with
      | nil =>
        obtain ⟨rfl, rfl⟩ := List.cons.inj hts
        exact ⟨n, rfl, hafter, hrest⟩
      | plain hplain =>
        obtain ⟨rfl, rfl⟩ := List.cons.inj hts
        rw [ht] at hplain
        cases hplain
      | group hopen =>
        rw [List.cons_append] at hts
        obtain ⟨rfl, -⟩ := List.cons.inj hts
        rw [ht] at hopen
        cases hopen

theorem Shut.tail_of_plain (h : Shut n (t :: ts)) (hopen : t.kind ≠ .symbol .openPar)
    (hclose : t.kind ≠ .symbol .closePar) : Shut n ts := by
  obtain ⟨hcloses, hguarded⟩ := h
  cases hguarded with
  | cons _ _ hrest =>
    refine ⟨?_, hrest⟩
    generalize hts : t :: ts = all at hcloses
    cases hcloses with
    | none h =>
      subst hts
      cases h with
      | plain _ _ _ hafter => exact .none hafter
      | group hopen' => exact absurd hopen' hopen
    | @group n inside rest closing hinside hclose' hafter =>
      cases hinside with
      | nil =>
        obtain ⟨rfl, rfl⟩ := List.cons.inj hts
        exact absurd hclose' hclose
      | plain _ _ hinside =>
        obtain ⟨rfl, rfl⟩ := List.cons.inj hts
        exact .group hinside hclose' hafter
      | group hopen' =>
        rw [List.cons_append] at hts
        obtain ⟨rfl, -⟩ := List.cons.inj hts
        exact absurd hopen' hopen

/-- Without the first token, another number of groups is closed. -/
theorem Shut.tail (h : Shut n (t :: ts)) : ∃ m, Shut m ts := by
  by_cases hopen : t.kind = .symbol .openPar
  · exact ⟨_, h.tail_of_open hopen⟩
  · by_cases hclose : t.kind = .symbol .closePar
    · obtain ⟨m, -, hm⟩ := h.tail_of_close hclose
      exact ⟨m, hm⟩
    · exact ⟨n, h.tail_of_plain hopen hclose⟩

/-- The innermost group that is open is closed first. -/
theorem Shut.first (h : Shut (n + 1) ts) : ∃ inside closing rest, ts = inside ++ closing :: rest ∧
    Balanced noStop inside ∧ Shut 0 inside ∧ closing.kind = .symbol .closePar ∧ Shut n rest := by
  obtain ⟨hcloses, hguarded⟩ := h
  cases hcloses with
  | group hinside hclose hrest =>
    obtain ⟨hguarded, hafter⟩ := hguarded.split hclose
    exact ⟨_, _, _, rfl, hinside, ⟨.none hinside.calling, hguarded⟩, hclose, ⟨hrest, hafter⟩⟩

theorem Closes.append (hts : Closes noStop noStop n ts) (hus : Closes noStop noStop m us) :
    Closes noStop noStop (n + m) (ts ++ us) := by
  induction hts with
  | none hts =>
    rw [Nat.zero_add]
    cases m with
    | zero => exact hus.calling hts
    | succ m => exact hus.balanced hts.balanced
  | group hinside hclose _ ih =>
    rw [Nat.add_right_comm, List.append_assoc, List.cons_append]
    exact .group hinside hclose ih

theorem Shut.append_close (hts : Shut n ts) (hclose : closing.kind = .symbol .closePar)
    (hus : Shut m us) : Shut (n + (m + 1)) (ts ++ closing :: us) where
  closes := hts.closes.append (hus.closes.closePar hclose)
  guarded := hts.guarded.append (guarded_close hclose hus.guarded)

end

/-! ## Passing over tokens -/

/-- In front of a closing parenthesis that is not opened, the function passes over tokens up to the
same place, whatever stands behind the parenthesis. -/
def ConfinedPass (pass : List Token → List Token) : Prop :=
  ∀ n ts, Shut n ts → ∃ m left, Shut m left ∧ ∀ closing behind,
    closing.kind = .symbol .closePar → pass (ts ++ closing :: behind) = left ++ closing :: behind

/-- So does the function, and it gives the same value. -/
def Confined {α β : Type} (give : α → List Token → β) (read : List Token → β) : Prop :=
  ∀ n ts, Shut n ts → ∃ a m left, Shut m left ∧ ∀ closing behind,
    closing.kind = .symbol .closePar →
      read (ts ++ closing :: behind) = give a (left ++ closing :: behind)

theorem ConfinedPass.comp {pass pass' : List Token → List Token} (h' : ConfinedPass pass')
    (h : ConfinedPass pass) : ConfinedPass fun ts => pass' (pass ts) := by
  intro n ts hts
  obtain ⟨m, left, hleft, hpass⟩ := h n ts hts
  obtain ⟨m', left', hleft', hpass'⟩ := h' m left hleft
  refine ⟨m', left', hleft', fun closing behind hclose => ?_⟩
  exact (congrArg pass' (hpass closing behind hclose)).trans (hpass' closing behind hclose)

theorem passOver_confined (kind : Terminal) (hkind : kind ≠ .symbol .closePar) :
    ConfinedPass (passOver kind) := by
  intro n ts hts
  cases ts with
  | nil =>
    refine ⟨n, [], hts, fun closing behind hclose => if_neg ?_⟩
    rw [hclose]
    exact hkind.symm
  | cons t ts =>
    by_cases ht : t.kind = kind
    · obtain ⟨m, hm⟩ := hts.tail
      exact ⟨m, ts, hm, fun closing behind _ => if_pos ht⟩
    · exact ⟨n, t :: ts, hts, fun closing behind _ => if_neg ht⟩

theorem passGroup_confined {n : Nat} {ts : List Token} (hts : Shut (n + 1) ts) :
    ∃ left, Shut n left ∧ ∀ behind,
      passGroup .openPar .closePar 0 (ts ++ behind) = left ++ behind := by
  obtain ⟨inside, closing, rest, rfl, hinside, -, hclose, hrest⟩ := hts.first
  refine ⟨rest, hrest, fun behind => ?_⟩
  rw [List.append_assoc, passGroup_append hinside, List.cons_append, passGroup, hclose]
  rfl

theorem passParenthesized_confined : ConfinedPass passParenthesized := by
  intro n ts hts
  cases ts with
  | nil =>
    refine ⟨n, [], hts, fun closing behind hclose => if_neg ?_⟩
    rw [hclose]
    decide
  | cons t ts =>
    by_cases hopen : t.kind = .symbol .openPar
    · obtain ⟨left, hleft, hpass⟩ := passGroup_confined (hts.tail_of_open hopen)
      exact ⟨n, left, hleft, fun closing behind _ => (if_pos hopen).trans (hpass _)⟩
    · exact ⟨n, t :: ts, hts, fun closing behind _ => if_neg hopen⟩

/-- A condition ends at the latest where more is closed than was open in it. -/
theorem passCondition_confined {n depth : Nat} {ts : List Token} (hts : Shut n ts)
    (hdepth : depth ≤ n) : ∃ m left, Shut m left ∧ ∀ closing behind,
      closing.kind = .symbol .closePar →
        passCondition depth (ts ++ closing :: behind) = left ++ closing :: behind := by
  induction ts generalizing n depth with
  | nil =>
    obtain rfl := hts.eq_zero
    obtain rfl := Nat.le_zero.1 hdepth
    refine ⟨0, [], hts, fun closing behind hclose => ?_⟩
    simp [passCondition, hclose]
  | cons t ts ih =>
    by_cases heof : t.kind = .eof
    · exact ⟨n, t :: ts, hts, fun closing behind _ => if_pos heof⟩
    by_cases hopen : t.kind = .symbol .openPar
    · obtain ⟨m, left, hleft, hpass⟩ := ih (hts.tail_of_open hopen) (Nat.succ_le_succ hdepth)
      refine ⟨m, left, hleft, fun closing behind hclose => ?_⟩
      exact (if_neg heof).trans ((if_pos hopen).trans (hpass closing behind hclose))
    by_cases hclose : t.kind = .symbol .closePar
    · cases depth with
      | zero =>
        refine ⟨n, t :: ts, hts, fun closing behind _ => ?_⟩
        exact (if_neg heof).trans ((if_neg hopen).trans (if_pos hclose))
      | succ depth =>
        obtain ⟨m, rfl, hm⟩ := hts.tail_of_close hclose
        obtain ⟨k, left, hleft, hpass⟩ := ih hm (Nat.le_of_succ_le_succ hdepth)
        refine ⟨k, left, hleft, fun closing behind hclosing => ?_⟩
        rw [← hpass closing behind hclosing]
        exact (if_neg heof).trans ((if_neg hopen).trans (if_pos hclose))
    by_cases hstop : depth = 0 ∧
        (t.kind = .symbol .comma ∨ isJoinWord t.kind = true ∨ isClauseEnd t.kind = true)
    · refine ⟨n, t :: ts, hts, fun closing behind _ => ?_⟩
      exact (if_neg heof).trans ((if_neg hopen).trans ((if_neg hclose).trans (if_pos hstop)))
    · obtain ⟨m, left, hleft, hpass⟩ := ih (hts.tail_of_plain hopen hclose) hdepth
      refine ⟨m, left, hleft, fun closing behind hclosing => ?_⟩
      rw [← hpass closing behind hclosing]
      exact (if_neg heof).trans ((if_neg hopen).trans ((if_neg hclose).trans (if_neg hstop)))

theorem passHintScope_confined : ConfinedPass passHintScope := by
  intro n ts hts
  cases ts with
  | nil =>
    refine ⟨n, [], hts, fun closing behind hclose => if_neg ?_⟩
    rw [hclose]
    decide
  | cons t ts =>
    by_cases hfor : t.kind = .keyword .FOR
    · cases hts.guarded with
      | cons _ hnext _ =>
        obtain ⟨u, ts, rfl⟩ := List.exists_cons_of_ne_nil (hnext hfor).1
        obtain ⟨m, hm⟩ := hts.tail
        obtain ⟨k, hk⟩ := hm.tail
        by_cases hjoin : u.kind = .keyword .JOIN
        · exact ⟨k, ts, hk, fun closing behind _ => (if_pos hfor).trans (if_pos hjoin)⟩
        · obtain ⟨m', left, hleft, hpass⟩ := passOver_confined (.keyword .BY) (by decide)
            k ts hk
          refine ⟨m', left, hleft, fun closing behind hclose => ?_⟩
          rw [← hpass closing behind hclose]
          exact (if_pos hfor).trans (if_neg hjoin)
    · exact ⟨n, t :: ts, hts, fun closing behind _ => if_neg hfor⟩

theorem passHintComma_confined : ConfinedPass passHintComma := by
  intro n ts hts
  rcases ts with _ | ⟨t, _ | ⟨u, ts⟩⟩
  · refine ⟨n, [], hts, fun closing behind hclose => passHintComma_of_not fun hcomma => ?_⟩
    rw [List.nil_append, headKind, hclose] at hcomma
    cases hcomma
  · refine ⟨n, [t], hts, fun closing behind hclose => passHintComma_of_not fun _ => ?_⟩
    exact congrArg isHintWord hclose
  · by_cases hcomma : t.kind = .symbol .comma ∧ isHintWord u.kind = true
    · obtain ⟨m, hm⟩ := hts.tail
      exact ⟨m, u :: ts, hm, fun closing behind _ => if_pos hcomma⟩
    · exact ⟨n, t :: u :: ts, hts, fun closing behind _ => if_neg hcomma⟩

theorem passHints_confined (fuel : Nat) : ConfinedPass (passHints fuel) := by
  induction fuel with
  | zero => exact fun n ts hts => ⟨n, ts, hts, fun closing behind _ => by unfold passHints; rfl⟩
  | succ fuel ih =>
    intro n ts hts
    rcases ts with _ | ⟨t, _ | ⟨u, ts⟩⟩
    · refine ⟨n, [], hts, fun closing behind hclose => passHints_of_not ?_ _⟩
      exact congrArg isHintWord hclose
    · refine ⟨n, [t], hts, fun closing behind hclose => ?_⟩
      have hindex : isIndexWord closing.kind = false := congrArg isIndexWord hclose
      simp [passHints, hindex]
    · by_cases hhint : (isHintWord t.kind && isIndexWord u.kind) = true
      · obtain ⟨m, hm⟩ := hts.tail
        obtain ⟨k, hk⟩ := hm.tail
        have hround := ih.comp (passHintComma_confined.comp
          (passParenthesized_confined.comp passHintScope_confined))
        obtain ⟨m', left, hleft, hpass⟩ := hround k ts hk
        refine ⟨m', left, hleft, fun closing behind hclose => ?_⟩
        rw [← hpass closing behind hclose]
        exact if_pos hhint
      · exact ⟨n, t :: u :: ts, hts, fun closing behind _ => if_neg hhint⟩

theorem passJoinWords_confined : Confined Prod.mk passJoinWords := by
  intro n ts hts
  induction ts generalizing n with
  | nil =>
    refine ⟨false, n, [], hts, fun closing behind hclose => ?_⟩
    simp [passJoinWords, hclose, isJoinWord]
  | cons t ts ih =>
    obtain ⟨m, hm⟩ := hts.tail
    by_cases hlast : t.kind = .keyword .JOIN ∨ t.kind = .keyword .STRAIGHT_JOIN ∨ t.kind = .eof
    · exact ⟨true, m, ts, hm, fun closing behind _ => if_pos hlast⟩
    by_cases hword : isJoinWord t.kind = true
    · obtain ⟨flag, k, left, hleft, hpass⟩ := ih m hm
      refine ⟨flag, k, left, hleft, fun closing behind hclose => ?_⟩
      rw [← hpass closing behind hclose]
      exact (if_neg hlast).trans (if_pos hword)
    · refine ⟨false, n, t :: ts, hts, fun closing behind _ => ?_⟩
      exact (if_neg hlast).trans (if_neg hword)

theorem passJoinCondition_confined : ConfinedPass passJoinCondition := by
  intro n ts hts
  cases ts with
  | nil =>
    refine ⟨n, [], hts, fun closing behind hclose => passJoinCondition_of_not ?_ ?_⟩
    all_goals simp [headKind, hclose]
  | cons t ts =>
    obtain ⟨m, hm⟩ := hts.tail
    by_cases hon : t.kind = .keyword .ON
    · obtain ⟨k, left, hleft, hpass⟩ := passCondition_confined hm (Nat.zero_le m)
      refine ⟨k, left, hleft, fun closing behind hclose => ?_⟩
      rw [← hpass closing behind hclose]
      exact if_pos hon
    by_cases husing : t.kind = .keyword .USING
    · obtain ⟨k, left, hleft, hpass⟩ := passParenthesized_confined m ts hm
      refine ⟨k, left, hleft, fun closing behind hclose => ?_⟩
      rw [← hpass closing behind hclose]
      exact (if_neg hon).trans (if_pos husing)
    · refine ⟨n, t :: ts, hts, fun closing behind _ => ?_⟩
      exact (if_neg hon).trans (if_neg husing)

/-! ## Readers -/

/-- The terminal at the front, where a closing parenthesis stands behind the tokens. -/
theorem headKind_append_close {closing : Token} (hclose : closing.kind = .symbol .closePar)
    (ts behind : List Token) :
    headKind (ts ++ closing :: behind) = (ts.head?.map Token.kind).getD (.symbol .closePar) := by
  cases ts with
  | nil => exact hclose
  | cons t ts => rfl

theorem readAlias_confined : Confined Prod.mk readAlias := by
  intro n ts hts
  obtain ⟨m, left, hleft, hpass⟩ := passOver_confined (.keyword .AS) (by decide) n ts hts
  cases left with
  | nil =>
    refine ⟨none, m, [], hleft, fun closing behind hclose => ?_⟩
    have hnot : ∀ explicit, isAlias explicit closing.kind = false := by
      intro explicit
      rw [hclose]
      rfl
    simp [readAlias, hpass closing behind hclose, hnot]
  | cons t left =>
    obtain ⟨k, hk⟩ := hleft.tail
    let explicit := (ts.head?.map Token.kind).getD (.symbol .closePar) == .keyword .AS
    by_cases halias : isAlias explicit t.kind = true
    · refine ⟨some ⟨Name.ofAliasText t.text, t.span⟩, k, left, hk, fun closing behind hclose => ?_⟩
      simp only [readAlias, hpass closing behind hclose, headKind_append_close hclose]
      exact if_pos halias
    · refine ⟨none, m, t :: left, hleft, fun closing behind hclose => ?_⟩
      simp only [readAlias, hpass closing behind hclose, headKind_append_close hclose]
      exact if_neg halias

theorem finishTable_confined (bound : Nat) (table : TableReference) :
    Confined Reading.mk (finishTable bound table) := by
  intro n ts hts
  have hpartition : ConfinedPass fun tokens =>
      if headKind tokens = .keyword .PARTITION then passParenthesized (tokens.drop 1)
      else tokens := by
    intro n ts hts
    cases ts with
    | nil =>
      refine ⟨n, [], hts, fun closing behind hclose => if_neg ?_⟩
      simp [headKind, hclose]
    | cons t ts =>
      by_cases hword : t.kind = .keyword .PARTITION
      · obtain ⟨m, hm⟩ := hts.tail
        obtain ⟨k, left, hleft, hpass⟩ := passParenthesized_confined m ts hm
        exact ⟨k, left, hleft, fun closing behind hclose =>
          (if_pos hword).trans (hpass closing behind hclose)⟩
      · exact ⟨n, t :: ts, hts, fun closing behind _ => if_neg hword⟩
  obtain ⟨m, named, hnamed, hpass⟩ := hpartition n ts hts
  obtain ⟨alias?, k, hints, hhints, halias⟩ := readAlias_confined m named hnamed
  obtain ⟨m', left, hleft, hpassHints⟩ := passHints_confined bound k hints hhints
  refine ⟨[{ table with alias? := alias? }], m', left, hleft, fun closing behind hclose => ?_⟩
  simp only [finishTable, hpass closing behind hclose, halias closing behind hclose,
    hpassHints closing behind hclose]

theorem readTable_confined (bound : Nat) (first : Token) :
    Confined Reading.mk (readTable bound first) := by
  intro n ts hts
  have halone := finishTable_confined bound (.ofTable (nameOf first) none) n ts hts
  obtain ⟨tables, m, left, hleft, hread⟩ := halone
  rcases ts with _ | ⟨point, _ | ⟨table, ts⟩⟩
  · refine ⟨tables, m, left, hleft, fun closing behind hclose => ?_⟩
    rw [← hread closing behind hclose]
    exact readTable_bare (by simp [headKind, hclose]) first
  · refine ⟨tables, m, left, hleft, fun closing behind hclose => ?_⟩
    rw [← hread closing behind hclose]
    refine if_neg fun hboth => ?_
    rw [hclose] at hboth
    exact absurd hboth.2 (by decide)
  · by_cases hboth : point.kind = .symbol .dot ∧ table.kind.isNameLike = true
    · obtain ⟨k, hk⟩ := hts.tail
      obtain ⟨k', hk'⟩ := hk.tail
      obtain ⟨tables, m, left, hleft, hread⟩ :=
        finishTable_confined bound (.ofTable (nameOf table) (some (nameOf first))) k' ts hk'
      exact ⟨tables, m, left, hleft, fun closing behind hclose =>
        (if_pos hboth).trans (hread closing behind hclose)⟩
    · exact ⟨tables, m, left, hleft, fun closing behind hclose =>
        (if_neg hboth).trans (hread closing behind hclose)⟩

section

variable {inner? : Option Inner} (bound : Nat)
  (hinner : ∀ inner ∈ inner?, Confined Reading.mk inner.list)

/-- A list in parentheses is read up to its own closing parenthesis at most. -/
theorem closed_list_confined {inner : Inner} (hlist : Confined Reading.mk inner.list) {n : Nat}
    {ts : List Token} (hts : Shut (n + 1) ts) : ∃ tables m left, Shut m left ∧ ∀ behind,
      (inner.list (ts ++ behind)).tables = tables ∧
        passOver (.symbol .closePar) (inner.list (ts ++ behind)).rest = left ++ behind := by
  obtain ⟨inside, closing, rest, rfl, -, hinside, hclose, hrest⟩ := hts.first
  obtain ⟨tables, m, left, hleft, hread⟩ := hlist 0 inside hinside
  have hinner : ∀ behind, inner.list (inside ++ closing :: rest ++ behind) =
      ⟨tables, left ++ closing :: (rest ++ behind)⟩ := by
    intro behind
    rw [List.append_assoc, List.cons_append]
    exact hread closing (rest ++ behind) hclose
  cases left with
  | nil =>
    refine ⟨tables, n, rest, hrest, fun behind => ?_⟩
    rw [hinner]
    exact ⟨rfl, if_pos hclose⟩
  | cons t left =>
    by_cases ht : t.kind = .symbol .closePar
    · obtain ⟨k, hk⟩ := hleft.tail
      refine ⟨tables, _, left ++ closing :: rest, hk.append_close hclose hrest, fun behind => ?_⟩
      rw [hinner, List.append_assoc]
      exact ⟨rfl, if_pos ht⟩
    · refine ⟨tables, _, _, hleft.append_close hclose hrest, fun behind => ?_⟩
      rw [hinner, List.append_assoc]
      exact ⟨rfl, if_neg ht⟩

include hinner

theorem factor_confined : Confined Reading.mk (factor bound inner?) := by
  intro n ts hts
  cases ts with
  | nil =>
    refine ⟨[], n, [], hts, fun closing behind hclose => ?_⟩
    have hname : Terminal.isNameLike (.symbol .closePar) = false := rfl
    simp [factor, hclose, hname]
  | cons t ts =>
    by_cases hopen : t.kind = .symbol .openPar
    · have hgroup := hts.tail_of_open hopen
      -- The parenthesis that closes this group tells whether a query starts in it.
      have hquery : ∀ behind,
          startsQuery (t :: (ts ++ behind)) = true ↔ OpensQuery (t :: ts) := by
        intro behind
        obtain ⟨inside, closing, rest, rfl, -, -, hclose, -⟩ := hgroup.first
        have hword : ∃ u ∈ t :: (inside ++ closing :: rest), u.kind ≠ .symbol .openPar :=
          ⟨closing, by simp, by simp [hclose]⟩
        exact startsQuery_append hword behind
      have hpass := passParenthesized_confined n (t :: ts) hts
      by_cases hopens : OpensQuery (t :: ts)
      · obtain ⟨m, named, hnamed, hpass⟩ := hpass
        obtain ⟨alias?, k, left, hleft, halias⟩ := readAlias_confined m named hnamed
        refine ⟨[], k, left, hleft, fun closing behind hclose => ?_⟩
        have hpassed := hpass closing behind hclose
        rw [List.cons_append] at hpassed ⊢
        simp only [factor, hopen, if_true, (hquery _).2 hopens, hpassed,
          halias closing behind hclose]
      · have hlist := fun behind => Bool.of_not_eq_true (mt (hquery behind).1 hopens)
        cases inner? with
        | none =>
          obtain ⟨m, left, hleft, hpass⟩ := hpass
          refine ⟨[], m, left, hleft, fun closing behind hclose => ?_⟩
          have hpassed := hpass closing behind hclose
          rw [List.cons_append] at hpassed ⊢
          simp only [factor, hopen, if_true, hlist, Bool.false_eq_true, if_false, hpassed]
        | some inner =>
          obtain ⟨tables, m, left, hleft, hread⟩ := closed_list_confined (hinner inner rfl) hgroup
          refine ⟨tables, m, left, hleft, fun closing behind _ => ?_⟩
          obtain ⟨htables, hrest⟩ := hread (closing :: behind)
          rw [List.cons_append]
          simp only [factor, hopen, if_true, hlist, Bool.false_eq_true, if_false, htables, hrest]
    · obtain ⟨m, hm⟩ := hts.tail
      by_cases hlateral : t.kind = .keyword .LATERAL
      · obtain ⟨k, named, hnamed, hpass⟩ := passParenthesized_confined m ts hm
        obtain ⟨alias?, k', left, hleft, halias⟩ := readAlias_confined k named hnamed
        refine ⟨[], k', left, hleft, fun closing behind hclose => ?_⟩
        rw [List.cons_append]
        simp only [factor, hlateral, reduceCtorEq, if_true, if_false,
          hpass closing behind hclose, halias closing behind hclose]
      by_cases hdual : t.kind = .keyword .DUAL
      · exact ⟨[], m, ts, hm, fun closing behind _ => factor_of_dual hdual _⟩
      cases hname : t.kind.isNameLike with
      | true =>
        obtain ⟨tables, k, left, hleft, hread⟩ := readTable_confined bound t m ts hm
        exact ⟨tables, k, left, hleft, fun closing behind hclose =>
          (factor_of_isNameLike hname _).trans (hread closing behind hclose)⟩
      | false =>
        refine ⟨[], n, t :: ts, hts, fun closing behind _ => ?_⟩
        rw [List.cons_append]
        simp only [factor, hopen, hlateral, hdual, hname, Bool.false_eq_true, if_false]

theorem joins_confined (fuel : Nat) : Confined Reading.mk (joins bound inner? fuel) := by
  induction fuel with
  | zero => exact fun n ts hts => ⟨[], n, ts, hts, fun closing behind _ => rfl⟩
  | succ fuel ih =>
    intro n ts hts
    have hhead := fun (closing : Token) (behind : List Token)
      (hclose : closing.kind = .symbol .closePar) => headKind_append_close hclose ts behind
    generalize (ts.head?.map Token.kind).getD (.symbol .closePar) = front at hhead
    cases hword : isJoinWord front with
    | false =>
      refine ⟨[], n, ts, hts, fun closing behind hclose => joins_of_not ?_ _⟩
      rw [hhead closing behind hclose, hword]
    | true =>
      obtain ⟨flag, m, table, htable, hpass⟩ := passJoinWords_confined n ts hts
      cases flag with
      | false =>
        refine ⟨[], m, table, htable, fun closing behind hclose => ?_⟩
        simp only [joins, hhead closing behind hclose, hword, if_true,
          hpass closing behind hclose]
      | true =>
        obtain ⟨tables, k, condition, hcondition, hread⟩ :=
          factor_confined bound hinner m table htable
        obtain ⟨k', more, hmore, hpass'⟩ := passJoinCondition_confined k condition hcondition
        obtain ⟨tables', m', left, hleft, hread'⟩ := ih k' more hmore
        refine ⟨tables ++ tables', m', left, hleft, fun closing behind hclose => ?_⟩
        simp only [joins, hhead closing behind hclose, hword, if_true,
          hpass closing behind hclose, hread closing behind hclose, hpass' closing behind hclose,
          hread' closing behind hclose]

theorem reference_confined : Confined Reading.mk (reference bound inner?) := by
  intro n ts hts
  have hbrace : ∀ closing behind, closing.kind = .symbol .closePar →
      headKind (ts ++ closing :: behind) ≠ .symbol .openCurly := by
    intro closing behind hclose
    cases hts.guarded with
    | nil => simp [headKind, hclose]
    | cons hbrace _ _ => exact hbrace
  obtain ⟨tables, m, more, hmore, hread⟩ := factor_confined bound hinner n ts hts
  obtain ⟨tables', m', left, hleft, hread'⟩ := joins_confined bound hinner bound m more hmore
  refine ⟨tables ++ tables', m', left, hleft, fun closing behind hclose => ?_⟩
  simp only [reference, hbrace closing behind hclose, if_false, hread closing behind hclose,
    hread' closing behind hclose]

theorem list_confined_of_inner (fuel : Nat) : Confined Reading.mk (list bound inner? fuel) := by
  induction fuel with
  | zero => exact fun n ts hts => ⟨[], n, ts, hts, fun closing behind _ => rfl⟩
  | succ fuel ih =>
    intro n ts hts
    obtain ⟨tables, m, more, hmore, hread⟩ := reference_confined bound hinner n ts hts
    have hhead := fun (ts : List Token) (closing : Token) (behind : List Token)
      (hclose : closing.kind = .symbol .closePar) => headKind_append_close hclose ts behind
    by_cases hgoOn : (more.head?.map Token.kind).getD (.symbol .closePar) = .symbol .comma ∨
        (startsReference ((ts.head?.map Token.kind).getD (.symbol .closePar)) = true ∧
          isClauseEnd ((more.head?.map Token.kind).getD (.symbol .closePar)) = false)
    · cases more with
      | nil => exact absurd hgoOn (by simp [isClauseEnd])
      | cons t more =>
        obtain ⟨k, hk⟩ := hmore.tail
        obtain ⟨tables', m', left, hleft, hread'⟩ := ih k more hk
        refine ⟨tables ++ tables', m', left, hleft, fun closing behind hclose => ?_⟩
        simp only [list, hread closing behind hclose, hhead _ closing behind hclose, hgoOn, if_true]
        rw [List.cons_append, List.drop_one, List.tail_cons, hread' closing behind hclose]
    · refine ⟨tables, m, more, hmore, fun closing behind hclose => ?_⟩
      simp only [list, hread closing behind hclose, hhead _ closing behind hclose, hgoOn, if_false]

end

/-- The reader for lists is confined, whatever room there is for groups. -/
theorem list_confined (bound room fuel : Nat) :
    Confined Reading.mk (list bound (inside? bound room) fuel) := by
  induction room generalizing fuel with
  | zero =>
    refine list_confined_of_inner bound (fun inner h => ?_) fuel
    cases h
  | succ room ih =>
    refine list_confined_of_inner bound (fun inner h => ?_) fuel
    rw [inside?, Option.mem_some_iff] at h
    subst h
    exact ih bound

/-- Balanced tokens in front of a closing parenthesis: the tables that are found are drawn from
these tokens and from the parenthesis at most. -/
theorem list_drawn {ts : List Token} {closing : Token} (hts : Balanced noStop ts)
    (hguarded : Guarded ts) (hclose : closing.kind = .symbol .closePar) (bound room fuel : Nat)
    (behind : List Token) : ∀ r ∈ (list bound (inside? bound room) fuel
      (ts ++ closing :: behind)).tables, r.DrawnFrom (ts ++ [closing]) := by
  obtain ⟨tables, m, left, -, hread⟩ :=
    list_confined bound room fuel 0 ts ⟨.none hts.calling, hguarded⟩
  rw [hread closing behind hclose]
  have hreads := list_reads bound (inside?_reads bound room) fuel (ts ++ [closing])
  rw [hread closing [] hclose] at hreads
  exact hreads.tables

end SqlCompletion.FromClause
