import SqlCompletion.Proofs.Confinement
set_option autoImplicit false

/-!
# Conditions of joins

The condition of a join is passed over token by token, up to a token that ends it. It may be any
expression of the MySQL grammar, and the grammar has two words in expressions that look like such a
token: the functions `LEFT` and `RIGHT` are named like the sides of joins.

The main result is about a clause with two joined tables, any expression as their condition, and one
more table behind a comma (`tables_of_condition`). Without a call of these two functions outside of
parentheses, all three tables are found. With such a call the third one is lost, and the arguments
of the call are read as a list of tables, so that names in the condition may be found in its place.

* Expressions are balanced, and outside of parentheses nothing ends a factor but those calls, which
  are told by the check on the bodies of the grammar.
* Behind the first such call stand its arguments in parentheses (`Calling.firstCall`). Its name is
  passed over like the words of a join that has no table, and the arguments are read as a list
  (`reference_of_call`).
* What is read of them does not go beyond the closing parenthesis. For that the phrases of the
  grammar have to be guarded (`guarded_of_phrase`): no brace is in them, and a `FOR` only where it
  belongs to an index hint. That is shown of all derivations at once (`Grammar.Derives.guarded`).

Calls inside of parentheses do no harm. Which names leak is not told, only that they stand in the
condition.
-/

namespace SqlCompletion

/-! ## Guarded derivations -/

namespace Element

/-- The element is made of these terminals, these rules and names. -/
structure MadeOf (terminals : Terminal → Bool) (rules : Rule → Bool) (e : Element) : Prop where
  terminal : ∀ t ∈ e.terminals, terminals t = true
  rule : ∀ r ∈ e.rules, rules r = true

section

variable {terminals : Terminal → Bool} {rules : Rule → Bool} {e : Element} {es : List Element}

theorem MadeOf.head (h : (seq (e :: es)).MadeOf terminals rules) : e.MadeOf terminals rules :=
  ⟨fun t ht => h.terminal t (List.mem_append_left _ ht),
    fun r hr => h.rule r (List.mem_append_left _ hr)⟩

theorem MadeOf.tail (h : (seq (e :: es)).MadeOf terminals rules) :
    (seq es).MadeOf terminals rules :=
  ⟨fun t ht => h.terminal t (List.mem_append_right _ ht),
    fun r hr => h.rule r (List.mem_append_right _ hr)⟩

theorem MadeOf.chosen (h : (choice es).MadeOf terminals rules) (he : e ∈ es) :
    e.MadeOf terminals rules :=
  ⟨fun t ht => h.terminal t (mem_terminalsOf he ht), fun r hr => h.rule r (mem_rulesOf he hr)⟩

end

end Element

namespace FromClause

/-- A terminal that may stand anywhere among guarded tokens. -/
def isMild (t : Terminal) : Bool := t != .symbol .openCurly && t != .keyword .FOR

theorem guarded_singleton {t : Token} (h : isMild t.kind = true) : Guarded [t] := by
  rw [isMild, Bool.and_eq_true, bne_iff_ne, bne_iff_ne] at h
  exact .cons h.1 (fun hfor => absurd hfor h.2) .nil

theorem isMild_of_isNameLike {t : Terminal} (h : t.isNameLike = true) : isMild t = true := by
  have hbrace : t ≠ .symbol .openCurly := ne_of_holds h rfl
  have hfor : t ≠ .keyword .FOR := ne_of_holds h rfl
  simp [isMild, hbrace, hfor]

theorem Guarded.of_append {ts us : List Token} (h : Guarded (ts ++ us)) : Guarded us := by
  induction ts with
  | nil => exact h
  | cons t ts ih =>
    cases h with
    | cons _ _ hrest => exact ih hrest

end FromClause

open FromClause in
/-- Tokens are guarded if each rule of theirs derives guarded tokens or is made of mild terminals
and such rules. -/
theorem Grammar.Derives.guarded {g : Grammar} {v : Version} (marked : Rule → Bool)
    (hmarked : ∀ r, marked r = true →
      (∀ ts : List Token, Derives g v (.rule r) (ts.map Token.kind) → Guarded ts) ∨
        ∀ body, g.body? r = some body → body.MadeOf isMild marked)
    {e : Element} {w : List Terminal} (h : Derives g v e w) (he : e.MadeOf isMild marked)
    {ts : List Token} (hw : ts.map Token.kind = w) : Guarded ts := by
  induction h generalizing ts with
  | token t =>
    obtain ⟨u, rfl, rfl⟩ := List.map_eq_singleton_iff.1 hw
    exact guarded_singleton (he.terminal _ List.mem_cons_self)
  | ident name =>
    obtain ⟨u, rfl, rfl⟩ := List.map_eq_singleton_iff.1 hw
    exact guarded_singleton (isMild_of_isNameLike name)
  | @rule r body w defined inner ih =>
    rcases hmarked r (he.rule r List.mem_cons_self) with hrule | hbody
    · exact hrule ts (by rw [hw]; exact .rule defined inner)
    · exact ih (hbody body defined) hw
  | seqNil | optNone | starNil =>
    rw [List.map_eq_nil_iff] at hw
    subst hw
    exact .nil
  | seqCons _ _ ihHead ihTail =>
    obtain ⟨us, ws, rfl, hus, hws⟩ := List.map_eq_append_iff.1 hw
    exact (ihHead he.head hus).append (ihTail he.tail hws)
  | choice chosen _ ih => exact ih (he.chosen chosen) hw
  | optSome _ ih | since _ _ ih | before _ _ ih => exact ih ⟨he.terminal, he.rule⟩ hw
  | starCons _ _ ihHead ihTail | plus _ _ ihHead ihTail =>
    obtain ⟨us, ws, rfl, hus, hws⟩ := List.map_eq_append_iff.1 hw
    exact (ihHead ⟨he.terminal, he.rule⟩ hus).append (ihTail ⟨he.terminal, he.rule⟩ hws)

namespace Mysql

open FromClause

variable {v : Version} {ts : List Token}

/-- Among the phrases, only the scope of an index hint asks for `FOR`, and none for a brace. -/
theorem madeOf_of_isPhrase : ∀ r, (!isPhrase r || r == .indexHintClause ||
    ((body r).terminals.all isMild && (body r).rules.all isPhrase)) = true :=
  Rule.forall_of_ofNat (by decide +kernel)

theorem guarded_of_indexHintClause
    (h : grammar.Derives v (.rule .indexHintClause) (ts.map Token.kind)) : Guarded ts := by
  obtain ⟨mark, scope, rfl, hmark, hscope⟩ := (derives_body h).exists_cons
  obtain ⟨words, none, rfl, hwords, hnone⟩ := hscope.exists_append
  obtain rfl := hnone.eq_nil
  have hmarkBrace : mark.kind ≠ .symbol .openCurly := by simp [hmark]
  have hword : ∀ word : Token, word.kind ≠ .symbol .openCurly → word.kind ≠ .keyword .FOR →
      word.kind ≠ .symbol .closePar → ∀ more, Guarded more →
        Guarded (mark :: (word :: more ++ [])) := by
    intro word hbrace hfor hclose more hmore
    rw [List.append_nil]
    exact .cons hmarkBrace (fun _ => ⟨List.cons_ne_nil _ _, hclose⟩)
      (.cons hbrace (fun h => absurd h hfor) hmore)
  obtain ⟨e, he, hwords⟩ := hwords.exists_chosen
  simp only [List.mem_cons, List.not_mem_nil, or_false] at he
  rcases he with rfl | rfl | rfl
  · obtain ⟨word, rfl, hkind⟩ := hwords.exists_token
    exact hword word (by simp [hkind]) (by simp [hkind]) (by simp [hkind]) [] .nil
  all_goals
    obtain ⟨word, more, rfl, hkind, hmore⟩ := hwords.exists_cons
    obtain ⟨last, none, rfl, hlast, hnone⟩ := hmore.exists_cons
    obtain rfl := hnone.eq_nil
    exact hword word (by simp [hkind]) (by simp [hkind]) (by simp [hkind]) [last]
      (guarded_singleton (by rw [hlast]; rfl))

/-- The phrases of the grammar are guarded. -/
theorem guarded_of_phrase {r : Rule} (hr : isPhrase r = true)
    (h : grammar.Derives v (.rule r) (ts.map Token.kind)) : Guarded ts := by
  refine h.guarded isPhrase (fun r hr => ?_) ⟨fun t ht => ?_, fun s hs => ?_⟩ rfl
  · by_cases hhint : r = .indexHintClause
    · subst hhint
      exact .inl fun ts => guarded_of_indexHintClause
    · refine .inr fun body hbody => ?_
      obtain rfl := Option.some.inj hbody
      have hmade := madeOf_of_isPhrase r
      rw [hr, beq_false_of_ne hhint, Bool.not_true, Bool.false_or, Bool.false_or,
        Bool.and_eq_true, List.all_eq_true, List.all_eq_true] at hmade
      exact ⟨hmade.1, hmade.2⟩
  · cases ht
  · rwa [List.mem_singleton.1 hs]

end Mysql

namespace FromClause

/-! ## Outside of parentheses -/

/-- The tokens outside of parentheses, where so many parentheses are open in front. -/
def outside : (depth : Nat) → List Token → List Token
  | _, [] => []
  | depth, t :: ts =>
    if t.kind = .symbol .openPar then outside (depth + 1) ts
    else if t.kind = .symbol .closePar then outside (depth - 1) ts
    else if depth = 0 then t :: outside 0 ts
    else outside depth ts

section

variable {calls stops : Terminal → Bool} {ts : List Token}

theorem outside_cons {t : Token} (ht : isPlain t.kind = true) (ts : List Token) :
    outside 0 (t :: ts) = t :: outside 0 ts := by
  have hopen : t.kind ≠ .symbol .openPar := ne_of_holds ht rfl
  have hclose : t.kind ≠ .symbol .closePar := ne_of_holds ht rfl
  rw [outside, if_neg hopen, if_neg hclose, if_pos rfl]

/-- Where a parenthesis is open, balanced tokens are not outside. -/
theorem outside_append (h : Balanced stops ts) (depth : Nat) (rest : List Token) :
    outside (depth + 1) (ts ++ rest) = outside (depth + 1) rest := by
  induction h generalizing depth rest with
  | nil => rfl
  | @plain _ t ts ht _ _ ih =>
    have hopen : t.kind ≠ .symbol .openPar := ne_of_holds ht rfl
    have hclose : t.kind ≠ .symbol .closePar := ne_of_holds ht rfl
    rw [List.cons_append, outside, if_neg hopen, if_neg hclose, if_neg (Nat.succ_ne_zero depth)]
    exact ih depth rest
  | group hopen hclose _ _ ihinside ih =>
    simp only [List.cons_append, List.append_assoc, outside, hopen, ihinside, hclose,
      Terminal.symbol.injEq, reduceCtorEq, if_true, if_false, Nat.add_sub_cancel]
    exact ih depth rest

theorem outside_group {opening closing : Token} {inside : List Token}
    (hopen : opening.kind = .symbol .openPar) (hclose : closing.kind = .symbol .closePar)
    (hinside : Balanced noStop inside) (ts : List Token) :
    outside 0 (opening :: (inside ++ closing :: ts)) = outside 0 ts := by
  rw [outside, if_pos hopen, outside_append hinside]
  simp [outside, hclose]

/-- Without a call outside of parentheses, the calls are stops as well. -/
theorem Calling.balanced_of_outside (h : Calling calls stops ts)
    (hnone : ∀ t ∈ outside 0 ts, calls t.kind = false) :
    Balanced (fun t => calls t || stops t) ts := by
  induction h with
  | nil => exact .nil
  | @plain t ts ht hstop _ _ ih =>
    rw [outside_cons ht, List.forall_mem_cons] at hnone
    exact .plain ht (by simp [hnone.1, hstop]) (ih hnone.2)
  | group hopen hclose hinside _ ih =>
    rw [outside_group hopen hclose hinside] at hnone
    exact .group hopen hclose hinside (ih hnone)

/-- Behind tokens without one, a call outside of parentheses stands in front of its arguments. -/
inductive FirstCall (calls stops : Terminal → Bool) : List Token → Prop
  | mk {front arguments behind : List Token} {word opening closing : Token}
      (hfront : Balanced (fun t => calls t || stops t) front) (hword : calls word.kind = true)
      (hopen : opening.kind = .symbol .openPar) (hclose : closing.kind = .symbol .closePar)
      (harguments : Balanced noStop arguments) :
      FirstCall calls stops (front ++ word :: opening :: (arguments ++ closing :: behind))

theorem Calling.firstCall (h : Calling calls stops ts)
    (hsome : ∃ t ∈ outside 0 ts, calls t.kind = true) : FirstCall calls stops ts := by
  induction h with
  | nil =>
    obtain ⟨t, ht, -⟩ := hsome
    cases ht
  | @plain t ts ht hstop hcall hrest ih =>
    rw [outside_cons ht, List.exists_mem_cons_iff] at hsome
    cases hword : calls t.kind with
    | false =>
      have hlater := hsome.resolve_left (by simp [hword])
      obtain ⟨hfront, hword', hopen, hclose, harguments⟩ := ih hlater
      exact .mk (.plain ht (by simp [hword, hstop]) hfront) hword' hopen hclose harguments
    | true =>
      have hopens := hcall hword
      cases hrest with
      | nil => cases hopens
      | @plain u us hplain =>
        rw [show u.kind = .symbol .openPar from hopens] at hplain
        cases hplain
      | @group opening closing inside us hopen hclose hinside =>
        have hfirst : FirstCall calls stops ([] ++ t :: opening :: (inside ++ closing :: us)) :=
          .mk .nil hword hopen hclose hinside
        exact hfirst
  | @group opening closing inside ts hopen hclose hinside _ ih =>
    rw [outside_group hopen hclose hinside] at hsome
    obtain @⟨front, arguments, behind, word, opening', closing', hfront, hword, hopen', hclose',
      harguments⟩ := ih hsome
    have hcall : FirstCall calls stops (opening :: (inside ++ closing :: front) ++
        word :: opening' :: (arguments ++ closing' :: behind)) :=
      .mk (.group hopen hclose hinside hfront) hword hopen' hclose' harguments
    rwa [List.cons_append, List.append_assoc, List.cons_append] at hcall

end

theorem isSideWord_or_endsFactorOnly :
    (fun t => Mysql.isSideWord t || Mysql.endsFactorOnly t) = endsFactor := by
  funext t
  unfold Mysql.endsFactorOnly
  cases hside : Mysql.isSideWord t with
  | false => simp
  | true =>
    unfold Mysql.isSideWord at hside
    split at hside
    · rfl
    · rfl
    · cases hside

/-! ## Clauses with a condition -/

/-- A clause `FROM a JOIN b ON ..., c`, but for the condition. -/
structure JoinClause extends ClauseFrame where
  first : List Token
  join : Token
  second : List Token
  mark : Token
  comma : Token
  a : TableReference
  b : TableReference
  ha : NamePart first a
  hjoin : join.kind = .keyword .JOIN
  hb : NamePart second b
  hmark : mark.kind = .keyword .ON
  hcomma : comma.kind = .symbol .comma

namespace JoinClause

variable (j : JoinClause) {condition : List Token}

/-- The clause with a condition in its place. -/
def tokens (condition : List Token) : List Token :=
  j.start :: (j.first ++ j.join ::
    (j.second ++ j.mark :: (condition ++ j.comma :: (j.last ++ j.rest))))

/-- Where nothing in the condition ends a factor, the clause is well-formed. -/
theorem tables_of_balanced (h : Balanced endsFactor condition) :
    tables (j.tokens condition) = [j.a, j.b, j.c] := by
  have hjoins :
      Presents .joins ([j.join] ++ (j.second ++ (j.mark :: condition ++ []))) [⟨j.b, 0⟩] :=
    .join (.last (.inl j.hjoin)) (.single j.hb.singleTable) (.expression j.hmark h) .noJoins
  have hlist := Presents.comma (.reference (.single j.ha.singleTable) hjoins) j.hcomma
    (Presents.single j.hc.singleTable).list_of_factor
  have htables := (tables_of_presents j.hstart hlist j.hrest).2 (by simp)
  rw [tokens]
  simpa using htables

/-- A call of `LEFT` or `RIGHT` ends the condition, and its name is passed over as the words of a
join that has no table. -/
theorem reference_of_call {bound : Nat} {inner? : Option Inner} {front more : List Token}
    {word opening : Token} (hfront : Balanced endsFactor front)
    (hword : Mysql.isSideWord word.kind = true) (hopen : opening.kind = .symbol .openPar)
    (hbound : j.first.length + j.second.length + 2 ≤ bound) :
    reference bound inner?
      (j.first ++ j.join :: (j.second ++ j.mark :: (front ++ word :: opening :: more))) =
        ⟨[j.a, j.b], opening :: more⟩ := by
  have hside : word.kind = .keyword .LEFT ∨ word.kind = .keyword .RIGHT := by
    unfold Mysql.isSideWord at hword
    split at hword
    · exact .inl ‹_›
    · exact .inr ‹_›
    · cases hword
  have hjoinWord : isJoinWord word.kind = true := by
    rcases hside with h | h
    all_goals rw [h]; rfl
  have hfirst : factor bound inner?
      (j.first ++ j.join :: (j.second ++ j.mark :: (front ++ word :: opening :: more))) =
        ⟨[j.a], _⟩ :=
    factor_of_singleTable j.ha.singleTable (by omega)
      (endsTable_cons j.hjoin rfl (by decide) _)
  have hsecond : factor bound inner?
      (j.second ++ j.mark :: (front ++ word :: opening :: more)) = ⟨[j.b], _⟩ :=
    factor_of_singleTable j.hb.singleTable (by omega)
      (endsTable_cons j.hmark rfl (by decide) _)
  have hcondition : passJoinCondition (j.mark :: (front ++ word :: opening :: more)) =
      word :: opening :: more := by
    rw [passJoinCondition, if_pos j.hmark, passCondition_append hfront fun _ => rfl]
    exact passCondition_zero (endsFactor_of_isJoinWord hjoinWord)
  have hempty : ∀ fuel, joins bound inner? (fuel + 1) (word :: opening :: more) =
      ⟨[], opening :: more⟩ := by
    intro fuel
    have hpass : passJoinWords (word :: opening :: more) = (false, opening :: more) := by
      rcases hside with h | h
      all_goals simp [passJoinWords, h, hopen, isJoinWord]
    simp only [joins, headKind, hjoinWord, if_true, hpass]
  have hstarts : startsFactor (headKind
      (j.first ++ j.join :: (j.second ++ j.mark :: (front ++ word :: opening :: more)))) = true :=
    headKind_append (Presents.single j.ha.singleTable).startsFactor_of_factor rfl _
  have hjoins : isJoinWord (headKind
      (j.join :: (j.second ++ j.mark :: (front ++ word :: opening :: more)))) = true :=
    congrArg isJoinWord j.hjoin
  obtain ⟨fuel, rfl⟩ := Nat.exists_eq_add_of_le' (show 2 ≤ bound by omega)
  rw [reference_of_factor hstarts hfirst,
    joins_succ hjoins (passJoinWords_cons (.inl j.hjoin) _), joined, hsecond]
  simp only [hcondition, hempty, List.append_nil, List.singleton_append]

/-- Behind the call, its arguments are read as a list, and nothing behind the parenthesis that
closes them is. -/
theorem tables_of_firstCall (h : FirstCall Mysql.isSideWord Mysql.endsFactorOnly condition)
    (hguarded : Guarded condition) : ∃ leaked, tables (j.tokens condition) = j.a :: j.b :: leaked ∧
      ∀ r ∈ leaked, r.DrawnFrom condition := by
  obtain @⟨front, arguments, behind, word, opening, closing, hfront, hword, hopen, hclose,
    harguments⟩ := h
  rw [isSideWord_or_endsFactorOnly] at hfront
  have hguardedArguments : Guarded arguments := by
    have hcall : Guarded ([word, opening] ++ (arguments ++ closing :: behind)) :=
      hguarded.of_append
    exact (hcall.of_append.split hclose).1
  let more := arguments ++ closing :: (behind ++ j.comma :: (j.last ++ j.rest))
  let clause := j.first ++ j.join :: (j.second ++ j.mark :: (front ++ word :: opening :: more))
  have htokens : j.tokens (front ++ word :: opening :: (arguments ++ closing :: behind)) =
      j.start :: clause := by
    simp [tokens, clause, more]
  have hread : reference (clause.length + 1) (inside? (clause.length + 1) maxNesting) clause =
      ⟨[j.a, j.b], opening :: more⟩ := by
    refine j.reference_of_call hfront hword hopen ?_
    simp only [clause, List.length_append, List.length_cons]
    omega
  have hstarts : startsReference (headKind clause) = true :=
    headKind_append (Presents.single j.ha.singleTable).startsReference rfl _
  refine ⟨(list (clause.length + 1) (inside? (clause.length + 1) maxNesting) clause.length
    more).tables, ?_, fun r hr => ?_⟩
  · rw [htokens, tables_cons j.hstart, list_of_stray hread hstarts (congrArg isClauseEnd hopen)]
    rfl
  · refine (list_drawn harguments hguardedArguments hclose _ _ _ _ r hr).mono fun t ht => ?_
    simp only [List.mem_append, List.mem_cons] at ht ⊢
    tauto

end JoinClause

/-- The condition of a join, whatever expression it is. Where it calls neither `LEFT` nor `RIGHT`
outside of parentheses, the tables of the clause are found. Where it calls one of them, the table
behind the condition is lost, and names that stand in the condition may be taken for tables. -/
theorem tables_of_condition (j : JoinClause) {v : Version} {condition : List Token}
    (h : Mysql.grammar.Derives v (.rule .expr) (condition.map Token.kind)) :
    ((∀ t ∈ outside 0 condition, Mysql.isSideWord t.kind = false) →
      tables (j.tokens condition) = [j.a, j.b, j.c]) ∧
    ((∃ t ∈ outside 0 condition, Mysql.isSideWord t.kind = true) →
      ∃ leaked, tables (j.tokens condition) = j.a :: j.b :: leaked ∧
        ∀ r ∈ leaked, r.DrawnFrom condition) := by
  have hcalling := Mysql.calling_of_expr h
  constructor
  · intro hnone
    have hbalanced := hcalling.balanced_of_outside hnone
    rw [isSideWord_or_endsFactorOnly] at hbalanced
    exact j.tables_of_balanced hbalanced
  · intro hsome
    exact j.tables_of_firstCall (hcalling.firstCall hsome) (Mysql.guarded_of_phrase rfl h)

/-- `FROM a JOIN b ON`, a condition from place 17 to place 31, and `, c`. -/
def sideClause : JoinClause where
  start := fromWord
  first := [firstName]
  join := writtenAt 7 (.keyword .JOIN) "JOIN"
  second := [writtenAt 12 (.symbol .identifier) "b"]
  mark := writtenAt 14 (.keyword .ON) "ON"
  comma := writtenAt 31 (.symbol .comma) ","
  last := [writtenAt 33 (.symbol .identifier) "c"]
  rest := []
  a := .ofTable ⟨"a", ⟨5, 6⟩⟩ none
  b := .ofTable ⟨"b", ⟨12, 13⟩⟩ none
  c := .ofTable ⟨"c", ⟨33, 34⟩⟩ none
  hstart := kind_fromWord
  ha := namePart_firstName
  hjoin := rfl
  hb := .bare rfl
  hmark := rfl
  hcomma := rfl
  hc := .bare rfl
  hrest := endsList_nil

/-- The condition `LEFT(x, 1) = y`. -/
def openCall : List Token :=
  [writtenAt 17 (.keyword .LEFT) "LEFT", writtenAt 21 (.symbol .openPar) "(",
    writtenAt 22 (.symbol .identifier) "x", writtenAt 23 (.symbol .comma) ",",
    writtenAt 25 (.symbol .intNumber) "1", writtenAt 26 (.symbol .closePar) ")",
    writtenAt 28 (.symbol .equal) "=", writtenAt 30 (.symbol .identifier) "y"]

/-- The condition `y =(LEFT(x,1))`. -/
def enclosedCall : List Token :=
  [writtenAt 17 (.symbol .identifier) "y", writtenAt 19 (.symbol .equal) "=",
    writtenAt 20 (.symbol .openPar) "(", writtenAt 21 (.keyword .LEFT) "LEFT",
    writtenAt 25 (.symbol .openPar) "(", writtenAt 26 (.symbol .identifier) "x",
    writtenAt 27 (.symbol .comma) ",", writtenAt 28 (.symbol .intNumber) "1",
    writtenAt 29 (.symbol .closePar) ")", writtenAt 30 (.symbol .closePar) ")"]

theorem tables_of_condition_enclosedCall :
    Mysql.grammar.Derives .standard (.rule .expr) (enclosedCall.map Token.kind) ∧
      tables (sideClause.tokens enclosedCall) = [sideClause.a, sideClause.b, sideClause.c] := by
  have hcondition : Mysql.grammar.Derives .standard (.rule .expr) (enclosedCall.map Token.kind) :=
    Mysql.derives_expr_equal Mysql.derives_column
      (Mysql.derives_group (Mysql.derives_expr_operand Mysql.derives_left))
  exact ⟨hcondition, (tables_of_condition sideClause hcondition).1 (by decide)⟩

/-- A call of `LEFT` outside of parentheses: the argument `x` is taken for a table, and the table
`c` is lost. -/
theorem tables_of_condition_openCall :
    Mysql.grammar.Derives .standard (.rule .expr) (openCall.map Token.kind) ∧
      tables (sideClause.tokens openCall) =
        [sideClause.a, sideClause.b, .ofTable ⟨"x", ⟨22, 23⟩⟩ none] :=
  ⟨Mysql.derives_expr_equal Mysql.derives_left Mysql.derives_column, by decide +kernel⟩

end FromClause

end SqlCompletion
