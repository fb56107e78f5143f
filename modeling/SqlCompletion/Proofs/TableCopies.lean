import SqlCompletion.Proofs.TableReading
set_option autoImplicit false

/-!
# What the tables of a `FROM` clause depend on

The readers of a clause look at the kinds and texts of tokens and at the neighbours of a token,
never at its place. So a clause that is read twice, first where it stands and then as a text of its
own, has the same tables both times, moved in the text as its tokens are (`tables_of_copies`).

`Copies` is the relation between the two lists of tokens: the same tokens, moved right by one
number, where the end of the text may be missing from the list that ends earlier. The missing end is
why there is a relation and not only a map. It does no harm, because no test of a reader tells the
end of a text from there being no more tokens.

What takes tokens away, and gives no tables, leaves copies for copies (`Copies.passOver` up to
`Copies.readAlias`). A reader of tables also gives moved tables (`Agrees`), one reader after the
other up to lists (`Copies.list`). For the inside of a group the property is a part of the induction
on the room for groups (`rel_inside?`), and the fuel of the readers has to be greater than the
number of tokens in both lists, since the lists may differ in length by one.

Here a text is not yet spoken of: that a clause cut out of a text has copies of its tokens is shown
with the reading of clauses.
-/

namespace SqlCompletion.FromClause

/-! ## Copies of tokens -/

/-- The second tokens are the first ones, moved right in the text; the end of the text may be
missing among them. -/
inductive Copies (delta : Nat) : List Token → List Token → Prop
  | nil : Copies delta [] []
  | ends {t : Token} (kind : t.kind = .eof) (text : t.text = "") : Copies delta [t] []
  | cons {t u : Token} {ts us : List Token} (kind : u.kind = t.kind) (text : u.text = t.text)
      (span : u.span = t.span.shift delta) (rest : Copies delta ts us) :
      Copies delta (t :: ts) (u :: us)

section

variable {delta : Nat} {ts us : List Token}

theorem Copies.headKind_eq (h : Copies delta ts us) : headKind us = headKind ts := by
  cases h with
  | nil => rfl
  | ends kind _ => exact kind.symm
  | cons kind _ _ _ => exact kind

theorem Copies.drop_one (h : Copies delta ts us) : Copies delta (ts.drop 1) (us.drop 1) := by
  cases h with
  | nil => exact .nil
  | ends _ _ => exact .nil
  | cons _ _ _ rest => exact rest

theorem Copies.passOver (kind : Terminal) (h : Copies delta ts us) :
    Copies delta (passOver kind ts) (passOver kind us) := by
  cases h with
  | nil => exact .nil
  | ends hkind text =>
    simp only [FromClause.passOver]
    split
    · exact .nil
    · exact .ends hkind text
  | cons hkind text span rest =>
    simp only [FromClause.passOver, hkind]
    split
    · exact rest
    · exact .cons hkind text span rest

theorem Copies.passGroup (opening closing : Symbol) (h : Copies delta ts us) (depth : Nat) :
    Copies delta (passGroup opening closing depth ts) (passGroup opening closing depth us) := by
  induction h generalizing depth with
  | nil => exact .nil
  | ends hkind text =>
    simp only [FromClause.passGroup, hkind, if_true]
    exact .ends hkind text
  | cons hkind text span rest ih =>
    simp only [FromClause.passGroup, hkind]
    split
    · exact .cons hkind text span rest
    · split
      · exact ih _
      · split
        · cases depth with
          | zero => exact rest
          | succ outer => exact ih outer
        · exact ih depth

theorem Copies.passParenthesized (h : Copies delta ts us) :
    Copies delta (passParenthesized ts) (passParenthesized us) := by
  cases h with
  | nil => exact .nil
  | ends hkind text =>
    simp only [FromClause.passParenthesized, hkind]
    exact .ends hkind text
  | cons hkind text span rest =>
    simp only [FromClause.passParenthesized, hkind]
    split
    · exact rest.passGroup _ _ 0
    · exact .cons hkind text span rest

theorem Copies.passCondition (h : Copies delta ts us) (depth : Nat) :
    Copies delta (passCondition depth ts) (passCondition depth us) := by
  induction h generalizing depth with
  | nil => exact .nil
  | ends hkind text =>
    simp only [FromClause.passCondition, hkind, if_true]
    exact .ends hkind text
  | cons hkind text span rest ih =>
    simp only [FromClause.passCondition, hkind]
    split
    · exact .cons hkind text span rest
    · split
      · exact ih _
      · split
        · cases depth with
          | zero => exact .cons hkind text span rest
          | succ outer => exact ih outer
        · split
          · exact .cons hkind text span rest
          · exact ih depth

theorem Copies.passHintScope (h : Copies delta ts us) :
    Copies delta (passHintScope ts) (passHintScope us) := by
  cases h with
  | nil => exact .nil
  | ends hkind text =>
    simp only [FromClause.passHintScope, hkind, reduceCtorEq, if_false]
    exact .ends hkind text
  | cons hkind text span rest =>
    simp only [FromClause.passHintScope, hkind]
    split
    · cases rest with
      | nil => exact .nil
      | ends hend _ =>
        simp only [hend]
        exact .nil
      | cons hnext _ _ tail =>
        simp only [hnext]
        split
        · exact tail
        · exact tail.passOver _
    · exact .cons hkind text span rest

theorem Copies.passHintComma (h : Copies delta ts us) :
    Copies delta (passHintComma ts) (passHintComma us) := by
  cases h with
  | nil => exact .nil
  | ends hkind text => exact .ends hkind text
  | cons hkind text span rest =>
    cases rest with
    | nil => exact .cons hkind text span .nil
    | ends hend htext =>
      rw [FromClause.passHintComma, if_neg (by simp [hend, isHintWord])]
      exact .cons hkind text span (.ends hend htext)
    | cons hnext htext hspan tail =>
      rw [FromClause.passHintComma, FromClause.passHintComma, hkind, hnext]
      split
      · exact .cons hnext htext hspan tail
      · exact .cons hkind text span (.cons hnext htext hspan tail)

theorem Copies.passHints (h : Copies delta ts us) {fuel fuel' : Nat} (hfuel : ts.length ≤ fuel)
    (hfuel' : us.length ≤ fuel') : Copies delta (passHints fuel ts) (passHints fuel' us) := by
  induction fuel generalizing fuel' ts us with
  | zero =>
    cases h with
    | nil =>
      rw [passHints_nil, passHints_nil]
      exact .nil
    | ends _ _ => exact absurd hfuel (by simp)
    | cons _ _ _ _ => exact absurd hfuel (by simp)
  | succ fuel ih =>
    cases h with
    | nil =>
      rw [passHints_nil, passHints_nil]
      exact .nil
    | ends hkind text =>
      rw [passHints_nil, passHints_singleton]
      exact .ends hkind text
    | cons hkind text span rest =>
      cases rest with
      | nil =>
        rw [passHints_singleton, passHints_singleton]
        exact .cons hkind text span .nil
      | ends hend htext =>
        rw [passHints_singleton, FromClause.passHints, if_neg (by simp [hend, isIndexWord])]
        exact .cons hkind text span (.ends hend htext)
      | @cons t' u' ts us hnext htext hspan tail =>
        cases fuel' with
        | zero => exact absurd hfuel' (by simp)
        | succ fuel' =>
          rw [FromClause.passHints, FromClause.passHints, hkind, hnext]
          split
          · have hshort := fun tokens : List Token =>
              ((passHintComma_suffix _).trans ((passParenthesized_suffix _).trans
                (passHintScope_suffix tokens))).length_le
            have hts := hshort ts
            have hus := hshort us
            simp only [List.length_cons] at hfuel hfuel'
            exact ih tail.passHintScope.passParenthesized.passHintComma (by omega) (by omega)
          · exact .cons hkind text span (.cons hnext htext hspan tail)

/-- The join goes on alike, and behind its words the tokens are copies again. -/
theorem Copies.passJoinWords (h : Copies delta ts us) :
    (passJoinWords us).1 = (passJoinWords ts).1 ∧
      Copies delta (passJoinWords ts).2 (passJoinWords us).2 := by
  induction h with
  | nil => exact ⟨rfl, .nil⟩
  | ends hkind _ =>
    simp only [FromClause.passJoinWords, hkind, or_true, if_true]
    exact ⟨trivial, .nil⟩
  | cons hkind text span rest ih =>
    simp only [FromClause.passJoinWords, hkind]
    split
    · exact ⟨rfl, rest⟩
    · split
      · exact ih
      · exact ⟨rfl, .cons hkind text span rest⟩

theorem Copies.passJoinCondition (h : Copies delta ts us) :
    Copies delta (passJoinCondition ts) (passJoinCondition us) := by
  cases h with
  | nil => exact .nil
  | ends hkind text =>
    simp only [FromClause.passJoinCondition, hkind, reduceCtorEq, if_false]
    exact .ends hkind text
  | cons hkind text span rest =>
    simp only [FromClause.passJoinCondition, hkind]
    split
    · exact rest.passCondition 0
    · split
      · exact rest.passParenthesized
      · exact .cons hkind text span rest

theorem Copies.passOuterJoinMark (h : Copies delta ts us) :
    Copies delta (passOuterJoinMark ts) (passOuterJoinMark us) := by
  cases h with
  | nil => exact .nil
  | ends hkind text =>
    have hmark : (("" : String).map Char.toLower == "oj") = false := by decide +kernel
    simp only [FromClause.passOuterJoinMark, isOuterJoinMark, text, hmark, Bool.false_eq_true,
      if_false]
    exact .ends hkind text
  | @cons t u ts us hkind text span rest =>
    have hmark : isOuterJoinMark u = isOuterJoinMark t := by
      rw [isOuterJoinMark, isOuterJoinMark, text]
    simp only [FromClause.passOuterJoinMark, hmark]
    cases isOuterJoinMark t with
    | true => exact rest
    | false => exact .cons hkind text span rest

theorem Copies.dropWhile {p : Terminal → Bool} (hp : p .eof = false) (h : Copies delta ts us) :
    Copies delta (ts.dropWhile fun t => p t.kind) (us.dropWhile fun t => p t.kind) := by
  induction h with
  | nil => exact .nil
  | ends hkind text =>
    rw [List.dropWhile_cons, hkind, hp]
    exact .ends hkind text
  | cons hkind text span rest ih =>
    rw [List.dropWhile_cons, List.dropWhile_cons, hkind]
    split
    · exact ih
    · exact .cons hkind text span rest

theorem Copies.startsQuery_eq (h : Copies delta ts us) : startsQuery us = startsQuery ts := by
  have hopened := h.dropWhile (p := (· == .symbol .openPar)) rfl
  rw [startsQuery, startsQuery, hopened.headKind_eq]

/-- The aliases are copies, and so is what follows them. -/
theorem Copies.readAlias (h : Copies delta ts us) :
    (readAlias us).1 = (readAlias ts).1.map (·.shift delta) ∧
      Copies delta (readAlias ts).2 (readAlias us).2 := by
  have hpass := h.passOver (.keyword .AS)
  unfold FromClause.readAlias
  dsimp only
  rw [h.headKind_eq]
  generalize FromClause.passOver (.keyword .AS) ts = ts' at hpass ⊢
  generalize FromClause.passOver (.keyword .AS) us = us' at hpass ⊢
  cases hpass with
  | nil => exact ⟨rfl, .nil⟩
  | ends hkind text =>
    have hnone : ∀ explicit, isAlias explicit .eof = false := fun _ => rfl
    simp only [hkind, hnone, Bool.false_eq_true, if_false]
    exact ⟨rfl, .ends hkind text⟩
  | cons hkind text span rest =>
    simp only [hkind]
    split
    · rw [text, span]
      exact ⟨rfl, rest⟩
    · exact ⟨rfl, .cons hkind text span rest⟩

end

/-! ## Readers -/

/-- The tables of the second reading are those of the first one, moved right in the text, and what
is left is a copy. -/
structure Agrees (delta : Nat) (reading reading' : Reading) : Prop where
  tables : reading'.tables = reading.tables.map (·.shift delta)
  rest : Copies delta reading.rest reading'.rest

section

variable {delta : Nat} {ts us : List Token} {bound bound' : Nat}

theorem agrees_none (h : Copies delta ts us) : Agrees delta ⟨[], ts⟩ ⟨[], us⟩ := ⟨rfl, h⟩

theorem Agrees.append {first first' more more' : Reading} (hfirst : Agrees delta first first')
    (hmore : Agrees delta more more') :
    Agrees delta ⟨first.tables ++ more.tables, more.rest⟩
      ⟨first'.tables ++ more'.tables, more'.rest⟩ where
  tables := by rw [List.map_append, hfirst.tables, hmore.tables]
  rest := hmore.rest

theorem Copies.finishTable (h : Copies delta ts us) (hbound : ts.length ≤ bound)
    (hbound' : us.length ≤ bound') (table : TableReference) :
    Agrees delta (finishTable bound table ts) (finishTable bound' (table.shift delta) us) := by
  have hpartition : Copies delta
      (if headKind ts = .keyword .PARTITION then FromClause.passParenthesized (ts.drop 1) else ts)
      (if headKind us = .keyword .PARTITION then FromClause.passParenthesized (us.drop 1)
        else us) := by
    rw [h.headKind_eq]
    split
    · exact h.drop_one.passParenthesized
    · exact h
  have hshort : ∀ tokens : List Token, (if headKind tokens = .keyword .PARTITION then
      FromClause.passParenthesized (tokens.drop 1) else tokens).length ≤ tokens.length := by
    intro tokens
    split
    · exact ((passParenthesized_suffix _).trans (List.drop_suffix 1 tokens)).length_le
    · exact Nat.le_refl _
  obtain ⟨halias, hrest⟩ := hpartition.readAlias
  constructor
  · show [_] = [_]
    rw [List.singleton_inj]
    exact congrArg (fun alias? => { table.shift delta with alias? := alias? }) halias
  · apply hrest.passHints
    · exact Nat.le_trans ((readAlias_suffix _).length_le.trans (hshort ts)) hbound
    · exact Nat.le_trans ((readAlias_suffix _).length_le.trans (hshort us)) hbound'

theorem shift_nameOf {t u : Token} (htext : u.text = t.text) (hspan : u.span = t.span.shift delta) :
    nameOf u = (nameOf t).shift delta := by
  rw [nameOf, nameOf, htext, hspan]
  rfl

theorem Copies.readTable {t u : Token} (htext : u.text = t.text)
    (hspan : u.span = t.span.shift delta) (h : Copies delta ts us) (hbound : ts.length ≤ bound)
    (hbound' : us.length ≤ bound') :
    Agrees delta (readTable bound t ts) (readTable bound' u us) := by
  have hname := shift_nameOf htext hspan
  have halone : Agrees delta (FromClause.finishTable bound (.ofTable (nameOf t) none) ts)
      (FromClause.finishTable bound' (.ofTable (nameOf u) none) us) := by
    rw [hname]
    exact h.finishTable hbound hbound' _
  cases h with
  | nil => exact halone
  | ends _ _ => exact halone
  | cons hpoint _ _ rest =>
    cases rest with
    | nil => exact halone
    | ends hend _ =>
      have hnot : Terminal.isNameLike .eof = false := rfl
      simp only [FromClause.readTable, hend, hnot, Bool.false_eq_true, and_false, if_false]
      exact halone
    | cons hkind htext hspan rest =>
      simp only [FromClause.readTable, hpoint, hkind]
      split
      · rw [hname, shift_nameOf htext hspan]
        simp only [List.length_cons] at hbound hbound'
        exact rest.finishTable (by omega) (by omega) _
      · exact halone

/-- The readers for the inside of a group give copies for copies, as long as the bounds are greater
than the tokens. -/
structure Inner.Agrees (delta bound bound' : Nat) (inner inner' : Inner) : Prop where
  sound : inner.Sound
  sound' : inner'.Sound
  list : ∀ ts us, Copies delta ts us → ts.length < bound → us.length < bound' →
    FromClause.Agrees delta (inner.list ts) (inner'.list us)
  reference : ∀ ts us, Copies delta ts us → ts.length < bound → us.length < bound' →
    FromClause.Agrees delta (inner.reference ts) (inner'.reference us)

variable {inner? inner?' : Option Inner}
  (hinner : Option.Rel (Inner.Agrees delta bound bound') inner? inner?')

include hinner

theorem sound_of_rel : ∀ inner ∈ inner?, inner.Sound := by
  intro inner hmem
  cases hinner with
  | none => cases hmem
  | some h =>
    obtain rfl := Option.some.inj hmem
    exact h.sound

theorem sound'_of_rel : ∀ inner ∈ inner?', inner.Sound := by
  intro inner hmem
  cases hinner with
  | none => cases hmem
  | some h =>
    obtain rfl := Option.some.inj hmem
    exact h.sound'

theorem Copies.factor (h : Copies delta ts us) (hbound : ts.length < bound)
    (hbound' : us.length < bound') :
    Agrees delta (factor bound inner? ts) (factor bound' inner?' us) := by
  cases h with
  | nil => exact agrees_none .nil
  | ends hkind text =>
    have hnot : Terminal.isNameLike .eof = false := rfl
    simp only [FromClause.factor, hkind, hnot, reduceCtorEq, Bool.false_eq_true, if_false]
    exact agrees_none (.ends hkind text)
  | @cons t u ts us hkind text span rest =>
    have hall : Copies delta (t :: ts) (u :: us) := .cons hkind text span rest
    simp only [List.length_cons] at hbound hbound'
    simp only [FromClause.factor, hkind, hall.startsQuery_eq]
    split
    · split
      · exact agrees_none hall.passParenthesized.readAlias.2
      · cases hinner with
        | none => exact agrees_none hall.passParenthesized
        | some hinner =>
          have hlist := hinner.list ts us rest (by omega) (by omega)
          exact ⟨hlist.tables, hlist.rest.passOver _⟩
    · split
      · exact agrees_none rest.passParenthesized.readAlias.2
      · split
        · exact agrees_none rest
        · split
          · exact rest.readTable text span (by omega) (by omega)
          · exact agrees_none hall

omit hinner in
/-- The words of a join are tokens. -/
theorem length_passJoinWords {tokens : List Token} (h : isJoinWord (headKind tokens) = true) :
    (passJoinWords tokens).2.length < tokens.length := by
  cases tokens with
  | nil => cases h
  | cons t rest =>
    have hword : isJoinWord t.kind = true := h
    rw [passJoinWords, if_pos hword, List.length_cons]
    split
    · exact Nat.lt_succ_self _
    · exact Nat.lt_succ_of_le (passJoinWords_suffix rest).length_le

theorem Copies.joins (h : Copies delta ts us) {fuel fuel' : Nat} (hbound : ts.length < bound)
    (hbound' : us.length < bound') (hfuel : ts.length < fuel) (hfuel' : us.length < fuel') :
    Agrees delta (joins bound inner? fuel ts) (joins bound' inner?' fuel' us) := by
  induction fuel generalizing fuel' ts us with
  | zero => exact absurd hfuel (Nat.not_lt_zero _)
  | succ fuel ih =>
    cases fuel' with
    | zero => exact absurd hfuel' (Nat.not_lt_zero _)
    | succ fuel' =>
      rw [FromClause.joins, FromClause.joins, h.headKind_eq]
      split
      · rename_i hword
        have hword' : isJoinWord (headKind us) = true := h.headKind_eq ▸ hword
        have hshort := length_passJoinWords hword
        have hshort' := length_passJoinWords hword'
        obtain ⟨hflag, hrest⟩ := h.passJoinWords
        cases hts : FromClause.passJoinWords ts with
        | mk flag ts' =>
          cases hus : FromClause.passJoinWords us with
          | mk flag' us' =>
            rw [hts, hus] at hflag hrest
            rw [hts] at hshort
            rw [hus] at hshort'
            dsimp only at hflag hrest hshort hshort' ⊢
            subst hflag
            cases flag' with
            | false => exact agrees_none hrest
            | true =>
              have hjoined := hrest.factor hinner (by omega) (by omega)
              have hleft := ((passJoinCondition_suffix _).trans
                (factor_reads bound (sound_of_rel hinner) ts').rest).length_le
              have hleft' := ((passJoinCondition_suffix _).trans
                (factor_reads bound' (sound'_of_rel hinner) us').rest).length_le
              refine hjoined.append (ih hjoined.rest.passJoinCondition ?_ ?_ ?_ ?_)
              all_goals omega
      · exact agrees_none h

theorem Copies.braces (h : Copies delta ts us) (hbound : ts.length < bound)
    (hbound' : us.length < bound') :
    Agrees delta (braces inner? ts) (braces inner?' us) := by
  cases hinner with
  | none => exact agrees_none (h.passGroup _ _ 0)
  | some hinner =>
    have hshort := fun tokens => (passOuterJoinMark_suffix tokens).length_le
    have hreference := hinner.reference _ _ h.passOuterJoinMark
      (Nat.lt_of_le_of_lt (hshort ts) hbound) (Nat.lt_of_le_of_lt (hshort us) hbound')
    exact ⟨hreference.tables, hreference.rest.passGroup _ _ 0⟩

theorem Copies.reference (h : Copies delta ts us) (hbound : ts.length < bound)
    (hbound' : us.length < bound') :
    Agrees delta (reference bound inner? ts) (reference bound' inner?' us) := by
  unfold FromClause.reference
  rw [h.headKind_eq]
  split
  · apply h.drop_one.braces hinner
    · exact Nat.lt_of_le_of_lt (List.drop_suffix 1 ts).length_le hbound
    · exact Nat.lt_of_le_of_lt (List.drop_suffix 1 us).length_le hbound'
  · have hfirst := h.factor hinner hbound hbound'
    have hleft := (factor_reads bound (sound_of_rel hinner) ts).rest.length_le
    have hleft' := (factor_reads bound' (sound'_of_rel hinner) us).rest.length_le
    refine hfirst.append (hfirst.rest.joins hinner ?_ ?_ ?_ ?_)
    all_goals omega

omit hinner in
/-- The list goes on in front of a token. -/
theorem ne_nil_of_goOn {p : Prop} {tokens : List Token}
    (h : headKind tokens = .symbol .comma ∨ p ∧ isClauseEnd (headKind tokens) = false) :
    tokens ≠ [] := by
  rintro rfl
  rcases h with h | ⟨-, h⟩
  · cases h
  · cases h

theorem Copies.list (h : Copies delta ts us) {fuel fuel' : Nat} (hbound : ts.length < bound)
    (hbound' : us.length < bound') (hfuel : ts.length < fuel) (hfuel' : us.length < fuel') :
    Agrees delta (list bound inner? fuel ts) (list bound' inner?' fuel' us) := by
  induction fuel generalizing fuel' ts us with
  | zero => exact absurd hfuel (Nat.not_lt_zero _)
  | succ fuel ih =>
    cases fuel' with
    | zero => exact absurd hfuel' (Nat.not_lt_zero _)
    | succ fuel' =>
      have hfirst := h.reference hinner hbound hbound'
      have hleft := (reference_reads bound (sound_of_rel hinner) ts).rest.length_le
      have hleft' := (reference_reads bound' (sound'_of_rel hinner) us).rest.length_le
      rw [FromClause.list, FromClause.list]
      dsimp only
      rw [h.headKind_eq, hfirst.rest.headKind_eq]
      split
      · rename_i hgoOn
        have hsome := List.length_pos_iff.2 (ne_nil_of_goOn hgoOn)
        have hsome' := List.length_pos_iff.2 (ne_nil_of_goOn (hfirst.rest.headKind_eq ▸ hgoOn))
        have hdrop := fun tokens : List Token => List.length_drop (i := 1) (l := tokens)
        refine hfirst.append (ih hfirst.rest.drop_one ?_ ?_ ?_ ?_)
        all_goals
          rw [hdrop]
          omega
      · exact hfirst

end

theorem rel_inside? (delta bound bound' room : Nat) :
    Option.Rel (Inner.Agrees delta bound bound') (inside? bound room) (inside? bound' room) := by
  induction room with
  | zero => exact .none
  | succ room ih =>
    refine .some ⟨⟨?_, ?_⟩, ⟨?_, ?_⟩, ?_, ?_⟩
    · exact list_reads bound (inside?_reads bound room) bound
    · exact reference_reads bound (inside?_reads bound room)
    · exact list_reads bound' (inside?_reads bound' room) bound'
    · exact reference_reads bound' (inside?_reads bound' room)
    · exact fun ts us h hbound hbound' => h.list ih hbound hbound' hbound hbound'
    · exact fun ts us h hbound hbound' => h.reference ih hbound hbound'

/-- Copies have the same tables, moved as the tokens are. -/
theorem tables_of_copies {delta : Nat} {ts us : List Token} (h : Copies delta ts us) :
    tables us = (tables ts).map (·.shift delta) := by
  have hpass := h.passOver (.keyword .FROM)
  have hlist := hpass.list (rel_inside? delta _ _ maxNesting) (Nat.lt_succ_self _)
    (Nat.lt_succ_self _) (Nat.lt_succ_self _) (Nat.lt_succ_self _)
  exact hlist.tables

end SqlCompletion.FromClause
