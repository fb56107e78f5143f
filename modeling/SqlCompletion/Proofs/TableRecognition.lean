import SqlCompletion.Proofs.TableGrammar
set_option autoImplicit false

/-!
# Reading well-formed clauses

The readers of a clause do not fail and pass over what they cannot use, so they have to keep step
with the grammar by themselves. They do: each takes the tokens of its part of a well-formed clause
and no more, whatever stands behind it that may (`Presents.reader_append`). So all tables of a
clause are found, each as it is written and in the order of the text, but those that are nested too
deep (`tables_of_presents`).

What may stand behind a part is told for each part on its own, and it is nothing that could go on
with the part: `EndsTable`, `EndsFactor`, `EndsJoin`, `EndsReference`, `EndsList`. A comma ends a
reference, unless another index hint follows it, since then it belongs to the hints. A clause is
over in front of a token that ends clauses, or with the text.

The proof is one induction on the well-formed clause (`FromClause.Presents`), with a lemma for each
kind of factor, for aliases (`readAlias_append`), index hints (`passHints_append`), conditions
(`passJoinCondition_append`) and joins (`joins_append`). Three numbers go along: the room for groups
goes down with each list in parentheses, the fuel with each join and each comma, and the bound of
the whole clause is the fuel of the parts inside.

Two things are out of reach, and `tables_out_of_reach` shows both: a table in more lists in
parentheses than are read, and a table behind a semicolon, which no well-formed condition holds
outside of parentheses. What is not well-formed in the sense of `Presents` is not treated here; the
modules on conditions, derived tables and groups of tables tell what is read of some of it.
-/

namespace SqlCompletion.FromClause

/-! ## Passing over balanced tokens -/

section Passing

variable {ts rest : List Token}

/-- Balanced tokens do not change how many groups are open. -/
theorem passGroup_append {stops : Terminal → Bool} (h : Balanced stops ts) (depth : Nat)
    (rest : List Token) :
    passGroup .openPar .closePar depth (ts ++ rest) = passGroup .openPar .closePar depth rest := by
  induction h generalizing depth rest with
  | nil => rfl
  | @plain _ t ts ht _ _ ih =>
    have hopen : t.kind ≠ .symbol .openPar := ne_of_holds ht rfl
    have hclose : t.kind ≠ .symbol .closePar := ne_of_holds ht rfl
    have heof : t.kind ≠ .eof := ne_of_holds ht rfl
    simp only [List.cons_append, passGroup, hopen, hclose, heof, if_false]
    exact ih depth rest
  | group hopen hclose _ _ ihinside ih =>
    simp only [List.cons_append, List.append_assoc, passGroup, hopen, ihinside, hclose,
      Terminal.symbol.injEq, reduceCtorEq, if_true, if_false]
    exact ih depth rest

theorem passParenthesized_append (h : IsGroup ts) (rest : List Token) :
    passParenthesized (ts ++ rest) = rest := by
  obtain ⟨hopen, hclose, hinside⟩ := h
  simp only [List.cons_append, List.append_assoc, List.nil_append, passParenthesized, hopen,
    passGroup_append hinside, passGroup, hclose, Terminal.symbol.injEq, reduceCtorEq, if_true,
    if_false]

/-- A condition goes on over balanced tokens, inside of parentheses whatever they are. -/
theorem passCondition_append {stops : Terminal → Bool} (h : Balanced stops ts) {depth : Nat}
    (hdepth : depth = 0 → stops = endsFactor) (rest : List Token) :
    passCondition depth (ts ++ rest) = passCondition depth rest := by
  induction h generalizing depth rest with
  | nil => rfl
  | @plain stops t ts ht hstop _ ih =>
    have hopen : t.kind ≠ .symbol .openPar := ne_of_holds ht rfl
    have hclose : t.kind ≠ .symbol .closePar := ne_of_holds ht rfl
    have heof : t.kind ≠ .eof := ne_of_holds ht rfl
    have hgoesOn : ¬ (depth = 0 ∧ endsFactor t.kind = true) := by
      rintro ⟨hzero, hends⟩
      rw [hdepth hzero, hends] at hstop
      cases hstop
    rw [endsFactor_iff] at hgoesOn
    simp only [List.cons_append, passCondition, hopen, hclose, heof, hgoesOn, if_false]
    exact ih hdepth rest
  | group hopen hclose _ _ ihinside ih =>
    simp only [List.cons_append, List.append_assoc, passCondition, hopen,
      ihinside (fun h => absurd h (Nat.succ_ne_zero depth)), hclose,
      Terminal.symbol.injEq, reduceCtorEq, if_true, if_false]
    exact ih hdepth rest

/-- A condition ends where a factor does. -/
theorem passCondition_zero (h : endsFactor (headKind rest) = true) :
    passCondition 0 rest = rest := by
  cases rest with
  | nil => rfl
  | cons t rest =>
    have hopen : t.kind ≠ .symbol .openPar := ne_of_holds h rfl
    rw [endsFactor_iff] at h
    simp only [passCondition, hopen, if_false]
    split
    · rfl
    · split
      · rfl
      · exact if_pos ⟨trivial, h⟩

/-! ## Queries -/

theorem startsQuery_cons_open {t : Token} (h : t.kind = .symbol .openPar) (ts : List Token) :
    startsQuery (t :: ts) = startsQuery ts := by
  simp [startsQuery, h]

theorem startsQuery_cons_word {t : Token} (h : t.kind ≠ .symbol .openPar) (ts : List Token) :
    startsQuery (t :: ts) = isQueryWord t.kind := by
  simp only [startsQuery, List.dropWhile, beq_eq_false_iff_ne.2 h]
  rfl

/-- Whether a query starts is told by the first token that opens no group. -/
theorem startsQuery_append (hword : ∃ t ∈ ts, t.kind ≠ .symbol .openPar) (rest : List Token) :
    startsQuery (ts ++ rest) = true ↔ OpensQuery ts := by
  induction ts with
  | nil =>
    obtain ⟨t, ht, -⟩ := hword
    cases ht
  | cons t ts ih =>
    rw [List.cons_append]
    by_cases hopen : t.kind = .symbol .openPar
    · have hlater : ∃ u ∈ ts, u.kind ≠ .symbol .openPar := by
        obtain ⟨u, hu, hne⟩ := hword
        obtain rfl | hu := List.mem_cons.1 hu
        · exact absurd hopen hne
        · exact ⟨u, hu, hne⟩
      rw [startsQuery_cons_open hopen, opensQuery_open hopen, ih hlater]
    · rw [startsQuery_cons_word hopen, opensQuery_word hopen]

/-! ## What may follow

Behind each part of a table only some terminals can stand, and none of them could start the part:
that is why the readers take each part for what it is. -/

/-- A terminal that no table goes on with. -/
def endsTable (kind : Terminal) : Bool :=
  !(kind == .symbol .dot || kind == .keyword .PARTITION || kind == .keyword .AS ||
    kind.isNameLike || isHintWord kind)

/-- A terminal that may follow the place of the alias: of index hints, or behind the table. -/
def behindAlias (kind : Terminal) : Bool := isHintWord kind || endsTable kind

/-- A terminal that may follow the place of the partitions. -/
def behindPartition (kind : Terminal) : Bool :=
  kind == .keyword .AS || kind.isNameLike || behindAlias kind

/-- A terminal that may follow the name of a table. -/
def behindName (kind : Terminal) : Bool := kind == .keyword .PARTITION || behindPartition kind

/-- What ends a factor ends a table. -/
theorem endsTable_of_endsFactor {kind : Terminal} (h : endsFactor kind = true) :
    endsTable kind = true := by
  have hdot : kind ≠ .symbol .dot := ne_of_holds h rfl
  have hpartition : kind ≠ .keyword .PARTITION := ne_of_holds h rfl
  have hmark : kind ≠ .keyword .AS := ne_of_holds h rfl
  simp [endsTable, hdot, hpartition, hmark, isNameLike_of_endsFactor h, isHintWord_of_endsFactor h]

theorem isNameLike_of_endsTable {kind : Terminal} (h : endsTable kind = true) :
    kind.isNameLike = false := by
  simp only [endsTable, Bool.not_eq_true', Bool.or_eq_false_iff] at h
  exact h.1.2

theorem isHintWord_of_endsTable {kind : Terminal} (h : endsTable kind = true) :
    isHintWord kind = false := by
  simp only [endsTable, Bool.not_eq_true', Bool.or_eq_false_iff] at h
  exact h.2

theorem isNameLike_of_behindAlias {kind : Terminal} (h : behindAlias kind = true) :
    kind.isNameLike = false := by
  obtain h | h := Bool.or_eq_true_iff.1 h
  · exact isNameLike_of_isHintWord h
  · exact isNameLike_of_endsTable h

theorem behindAlias_of_endsTable {kind : Terminal} (h : endsTable kind = true) :
    behindAlias kind = true :=
  Bool.or_eq_true_iff.2 (.inr h)

theorem Hints.behindAlias (h : Hints ts) (hrest : endsTable (headKind rest) = true) :
    behindAlias (headKind (ts ++ rest)) = true :=
  headKind_append_of (p := (FromClause.behindAlias · = true))
    (h.isHintWord_headKind.imp_right fun h => Bool.or_eq_true_iff.2 (.inl h))
    (behindAlias_of_endsTable hrest)

theorem AliasPart.behindPartition {alias? : Option NameAt} (h : AliasPart ts alias?)
    (hrest : behindAlias (headKind rest) = true) :
    behindPartition (headKind (ts ++ rest)) = true := by
  refine headKind_append_of (p := (FromClause.behindPartition · = true))
    (h.headKind_eq.imp_right ?_) (by simp [FromClause.behindPartition, hrest])
  rintro (h | h)
  · simp [FromClause.behindPartition, h]
  · simp [FromClause.behindPartition, h]

theorem PartitionPart.behindName (h : PartitionPart ts)
    (hrest : behindPartition (headKind rest) = true) :
    behindName (headKind (ts ++ rest)) = true :=
  headKind_append_of (p := (FromClause.behindName · = true))
    (h.headKind_eq.imp_right fun h => by simp [FromClause.behindName, h])
    (by simp [FromClause.behindName, hrest])

/-- What can be behind a table. A comma that another index hint follows belongs to the hints. -/
structure EndsTable (rest : List Token) : Prop where
  ends : endsTable (headKind rest) = true
  noHint : headKind rest = .symbol .comma → isHintWord (headKind (rest.drop 1)) = false

theorem endsTable_cons {t : Token} {kind : Terminal} (ht : t.kind = kind)
    (hends : endsTable kind = true) (hcomma : kind ≠ .symbol .comma) (rest : List Token) :
    EndsTable (t :: rest) where
  ends := by rwa [headKind, ht]
  noHint := by
    intro h
    rw [headKind, ht] at h
    exact absurd h hcomma

/-- What can be behind a factor with its condition. -/
structure EndsFactor (rest : List Token) : Prop where
  ends : endsFactor (headKind rest) = true
  noHint : headKind rest = .symbol .comma → isHintWord (headKind (rest.drop 1)) = false

theorem EndsFactor.endsTable (h : EndsFactor rest) : EndsTable rest :=
  ⟨endsTable_of_endsFactor h.ends, h.noHint⟩

/-- What can be behind a join. -/
structure EndsJoin (rest : List Token) : Prop extends EndsFactor rest where
  noExpression : headKind rest ≠ .keyword .ON
  noColumns : headKind rest ≠ .keyword .USING

/-- What can be behind a reference. -/
structure EndsReference (rest : List Token) : Prop extends EndsJoin rest where
  noJoin : isJoinWord (headKind rest) = false

/-- What can be behind a list: nothing, or the end of the clause. -/
structure EndsList (rest : List Token) : Prop where
  ends : isClauseEnd (headKind rest) = true
  noExpression : headKind rest ≠ .keyword .ON
  noColumns : headKind rest ≠ .keyword .USING

theorem endsList_nil : EndsList [] := ⟨rfl, by decide, by decide⟩

theorem endsFactor_of_word (h : endsFactor (headKind rest) = true)
    (hne : headKind rest ≠ .symbol .comma) : EndsFactor rest :=
  ⟨h, fun hcomma => absurd hcomma hne⟩

theorem EndsList.endsReference (h : EndsList rest) : EndsReference rest where
  toEndsFactor := endsFactor_of_word (endsFactor_of_isClauseEnd h.ends) (ne_of_holds h.ends rfl)
  noExpression := h.noExpression
  noColumns := h.noColumns
  noJoin := isJoinWord_of_isClauseEnd h.ends

theorem endsList_close {closing : Token} (h : closing.kind = .symbol .closePar)
    (rest : List Token) : EndsList (closing :: rest) := by
  constructor <;> simp [headKind, h, isClauseEnd]

/-- A comma ends a reference if a list goes on behind it. -/
theorem Presents.endsReference_comma {comma : Token} {found : List Placed}
    (hcomma : comma.kind = .symbol .comma) (h : Presents .list ts found) (rest : List Token) :
    EndsReference (comma :: (ts ++ rest)) where
  ends := by simp [headKind, hcomma, endsFactor]
  noHint := by
    intro _
    exact isHintWord_of_startsFactor (headKind_append h.startsFactor_of_list rfl rest)
  noExpression := by simp [headKind, hcomma]
  noColumns := by simp [headKind, hcomma]
  noJoin := by simp [headKind, hcomma, isJoinWord]

theorem endsJoin_of_isJoinWord (h : isJoinWord (headKind rest) = true) : EndsJoin rest where
  toEndsFactor := endsFactor_of_word (endsFactor_of_isJoinWord h) (ne_of_holds h rfl)
  noExpression := ne_of_holds h rfl
  noColumns := ne_of_holds h rfl

theorem Presents.endsJoin {found : List Placed} (h : Presents .joins ts found)
    (hrest : EndsReference rest) : EndsJoin (ts ++ rest) := by
  obtain rfl | hword := h.isJoinWord_of_joins
  · exact hrest.toEndsJoin
  · exact endsJoin_of_isJoinWord (headKind_append hword rfl rest)

theorem JoinCondition.endsFactor (h : JoinCondition ts) (hrest : EndsJoin rest) :
    EndsFactor (ts ++ rest) := by
  cases h with
  | none => exact hrest.toEndsFactor
  | columns hword =>
    exact endsFactor_of_word (congrArg FromClause.endsFactor hword) (by simp [headKind, hword])
  | expression hword =>
    exact endsFactor_of_word (congrArg FromClause.endsFactor hword) (by simp [headKind, hword])

/-! ## Aliases -/

theorem readAlias_append {alias? : Option NameAt} (h : AliasPart ts alias?)
    (hrest : behindAlias (headKind rest) = true) : readAlias (ts ++ rest) = (alias?, rest) := by
  cases h with
  | none =>
    cases rest with
    | nil => rfl
    | cons t rest =>
      have hmark : t.kind ≠ .keyword .AS := ne_of_holds hrest rfl
      have hname : t.kind.isNameLike = false := isNameLike_of_behindAlias hrest
      simp [readAlias, headKind, passOver, hmark, beq_eq_false_iff_ne.2 hmark, isAlias_false, hname]
  | @bare t ht =>
    have hmark : t.kind ≠ .keyword .AS := ne_of_holds ht rfl
    simp [readAlias, headKind, passOver, hmark, beq_eq_false_iff_ne.2 hmark, isAlias_false, ht]
  | marked hmark ht => simp [readAlias, headKind, passOver, hmark, ht]

/-! ## Index hints -/

theorem passHintScope_append (h : HintScope ts) (hrest : headKind rest = .symbol .openPar) :
    passHintScope (ts ++ rest) = rest := by
  cases h with
  | everything =>
    cases rest with
    | nil => rfl
    | cons t rest =>
      have hmark : t.kind ≠ .keyword .FOR := by
        rw [show t.kind = .symbol .openPar from hrest]
        decide
      exact if_neg hmark
  | join hmark hword => simp [passHintScope, hmark, hword]
  | sorting hmark hword hlast =>
    obtain hword | hword := hword
    · simp [passHintScope, hmark, hword, passOver, hlast]
    · simp [passHintScope, hmark, hword, passOver, hlast]

theorem IsGroup.headKind_eq (h : IsGroup ts) (rest : List Token) :
    headKind (ts ++ rest) = .symbol .openPar := by
  obtain ⟨hopen⟩ := h
  exact hopen

/-- A hint takes one round. -/
theorem passHints_succ (h : Hint ts) (fuel : Nat) (rest : List Token) :
    passHints (fuel + 1) (ts ++ rest) = passHints fuel (passHintComma rest) := by
  obtain ⟨hword, hindex, hscope, hnames⟩ := h
  simp only [List.cons_append, List.append_assoc, passHints, hword, hindex, Bool.and_self, if_true,
    passHintScope_append hscope (hnames.headKind_eq rest), passParenthesized_append hnames]

theorem passHints_of_not (h : isHintWord (headKind rest) = false) (fuel : Nat) :
    passHints fuel rest = rest := by
  unfold passHints
  split
  · rename_i t u rest
    rw [show isHintWord t.kind = false from h]
    rfl
  · rfl

/-- A comma belongs to the hints only if another hint follows it. -/
theorem passHintComma_of_not (h : headKind rest = .symbol .comma →
    isHintWord (headKind (rest.drop 1)) = false) : passHintComma rest = rest := by
  unfold passHintComma
  split
  · rename_i t u rest
    refine if_neg ?_
    rintro ⟨hcomma, hword⟩
    rw [show isHintWord u.kind = false from h hcomma] at hword
    cases hword
  · rfl

theorem passHints_append (h : Hints ts) {fuel : Nat} (hfuel : ts.length ≤ fuel)
    (hrest : EndsTable rest) : passHints fuel (ts ++ rest) = rest := by
  induction h generalizing fuel with
  | none => exact passHints_of_not (isHintWord_of_endsTable hrest.ends) fuel
  | @next hint more hhint hmore ih =>
    have hsome := List.length_pos_iff.2 hhint.ne_nil
    rw [List.length_append] at hfuel
    obtain ⟨fuel, rfl⟩ := Nat.exists_eq_succ_of_ne_zero (n := fuel) (by omega)
    have hcomma : passHintComma (more ++ rest) = more ++ rest := by
      apply passHintComma_of_not
      obtain rfl | hword := hmore.isHintWord_headKind
      · exact hrest.noHint
      · intro hcomma
        exact absurd hcomma (ne_of_holds (headKind_append hword rfl rest) rfl)
    rw [List.append_assoc, passHints_succ hhint, hcomma]
    exact ih (by omega)
  | @comma hint more comma hhint hcomma hmore hne ih =>
    have hsome := List.length_pos_iff.2 hhint.ne_nil
    rw [List.length_append, List.length_cons] at hfuel
    obtain ⟨fuel, rfl⟩ := Nat.exists_eq_succ_of_ne_zero (n := fuel) (by omega)
    have hpass : passHintComma (comma :: (more ++ rest)) = more ++ rest := by
      cases more with
      | nil => exact absurd rfl hne
      | cons u more =>
        have hword := hmore.isHintWord_headKind.resolve_left hne
        exact if_pos ⟨hcomma, hword⟩
    rw [List.append_assoc, List.cons_append, passHints_succ hhint, hpass]
    exact ih (by omega)

end Passing

/-! ## Factors -/

section Factors

variable {bound : Nat} {inner? : Option Inner} {ts rest : List Token}

/-- What follows the name of a table is read up to the end of the table. -/
theorem finishTable_append {partition named hints : List Token} {alias? : Option NameAt}
    (table : TableReference) (hpartition : PartitionPart partition)
    (hnamed : AliasPart named alias?) (hhints : Hints hints) (hbound : hints.length ≤ bound)
    (hrest : EndsTable rest) :
    finishTable bound table (partition ++ (named ++ (hints ++ rest))) =
      ⟨[{ table with alias? := alias? }], rest⟩ := by
  have hbehind := hhints.behindAlias hrest.ends
  have halias := readAlias_append hnamed hbehind
  have hpass := passHints_append hhints hbound hrest
  cases hpartition with
  | none =>
    have hnone : headKind (named ++ (hints ++ rest)) ≠ .keyword .PARTITION :=
      ne_of_holds (hnamed.behindPartition hbehind) rfl
    simp only [finishTable, List.nil_append, hnone, if_false, halias, hpass]
  | named hword hnames =>
    simp only [finishTable, List.cons_append, headKind, hword, if_true, List.drop_succ_cons,
      List.drop_zero, passParenthesized_append hnames, halias, hpass]

/-- Without a point behind it, a name is that of the table. -/
theorem readTable_bare {tokens : List Token} (h : headKind tokens ≠ .symbol .dot) (first : Token) :
    readTable bound first tokens = finishTable bound (.ofTable (nameOf first) none) tokens := by
  unfold readTable
  split
  · exact if_neg fun hpoint => h hpoint.1
  · rfl

theorem factor_of_isNameLike {t : Token} (h : t.kind.isNameLike = true) (rest : List Token) :
    factor bound inner? (t :: rest) = readTable bound t rest := by
  have hopen : t.kind ≠ .symbol .openPar := ne_of_holds h rfl
  have hlateral : t.kind ≠ .keyword .LATERAL := ne_of_holds h rfl
  have hdual : t.kind ≠ .keyword .DUAL := ne_of_holds h rfl
  simp only [factor, hopen, hlateral, hdual, h, if_true, if_false]

theorem factor_of_singleTable {table : TableReference} (h : SingleTable ts table)
    (hbound : ts.length ≤ bound) (hrest : EndsTable rest) :
    factor bound inner? (ts ++ rest) = ⟨[table], rest⟩ := by
  obtain @⟨name, partition, named, hints, table, alias?, hname, hpartition, hnamed, hhints⟩ := h
  simp only [List.length_append] at hbound
  have hhintsBound : hints.length ≤ bound := by omega
  have hfinish := fun table =>
    finishTable_append table hpartition hnamed hhints hhintsBound hrest
  simp only [List.append_assoc]
  cases hname with
  | bare htable =>
    have hbehind := hpartition.behindName (hnamed.behindPartition (hhints.behindAlias hrest.ends))
    rw [List.singleton_append, factor_of_isNameLike htable,
      readTable_bare (ne_of_holds hbehind rfl)]
    exact hfinish _
  | inSchema hschema hpoint htable =>
    rw [List.cons_append, factor_of_isNameLike hschema]
    exact (if_pos ⟨hpoint, htable⟩).trans (hfinish _)

theorem IsGroup.startsQuery_iff (h : IsGroup ts) (rest : List Token) :
    startsQuery (ts ++ rest) = true ↔ OpensQuery ts := by
  obtain @⟨opening, closing, inside, hopen, hclose, -⟩ := h
  refine startsQuery_append ⟨closing, by simp, ?_⟩ rest
  rw [hclose]
  decide

theorem factor_of_query (h : IsGroup ts) (hopens : OpensQuery ts) (rest : List Token) :
    factor bound inner? (ts ++ rest) = ⟨[], (readAlias rest).2⟩ := by
  have hquery := (h.startsQuery_iff rest).2 hopens
  have hpass := passParenthesized_append h rest
  obtain ⟨hopen, -, -⟩ := h
  rw [List.cons_append] at hquery hpass ⊢
  simp only [factor, hopen, if_true, hquery, hpass]

theorem factor_of_derivedTable (h : DerivedTable ts)
    (hrest : endsTable (headKind rest) = true) :
    factor bound inner? (ts ++ rest) = ⟨[], rest⟩ := by
  have hbehind := behindAlias_of_endsTable hrest
  cases h with
  | plain hquery hopens hnamed =>
    rw [List.append_assoc, factor_of_query hquery hopens, readAlias_append hnamed hbehind]
  | lateral hword hquery _ hnamed =>
    simp only [factor, List.cons_append, hword, reduceCtorEq, if_false, if_true, List.append_assoc,
      passParenthesized_append hquery, readAlias_append hnamed hbehind]

theorem factor_of_dual {t : Token} (h : t.kind = .keyword .DUAL) (rest : List Token) :
    factor bound inner? (t :: rest) = ⟨[], rest⟩ := by
  simp [factor, h]

/-- Where no list is read any more, a list in parentheses is passed over. -/
theorem factor_of_group_none (h : IsGroup ts) (hopens : ¬ OpensQuery ts) (rest : List Token) :
    factor bound none (ts ++ rest) = ⟨[], rest⟩ := by
  have hquery := mt (h.startsQuery_iff rest).1 hopens
  have hpass := passParenthesized_append h rest
  obtain ⟨hopen, -, -⟩ := h
  rw [List.cons_append] at hquery hpass ⊢
  simp only [factor, hopen, if_true, hquery, hpass]
  rfl

/-- A list in parentheses holds the tables that are read inside. -/
theorem factor_of_group_some {opening closing : Token} {inner : Inner}
    {tables : List TableReference} (hopen : opening.kind = .symbol .openPar)
    (hclose : closing.kind = .symbol .closePar) (hinside : Balanced noStop ts)
    (hopens : ¬ OpensQuery (opening :: (ts ++ [closing])))
    (hlist : inner.list (ts ++ closing :: rest) = ⟨tables, closing :: rest⟩) :
    factor bound (some inner) (opening :: (ts ++ [closing]) ++ rest) = ⟨tables, rest⟩ := by
  have hquery := mt ((IsGroup.mk hopen hclose hinside).startsQuery_iff rest).1 hopens
  rw [List.cons_append, List.append_assoc, List.singleton_append] at hquery ⊢
  simp only [factor, hopen, if_true, hquery, hlist, passOver, hclose]
  rfl

end Factors

/-! ## Joins -/

section Joins

variable {bound : Nat} {inner? : Option Inner} {ts rest : List Token}

theorem factor_of_isJoinWord (h : isJoinWord (headKind rest) = true) :
    factor bound inner? rest = ⟨[], rest⟩ := by
  cases rest with
  | nil => rfl
  | cons t rest =>
    have hopen : t.kind ≠ .symbol .openPar := ne_of_holds h rfl
    have hlateral : t.kind ≠ .keyword .LATERAL := ne_of_holds h rfl
    have hdual : t.kind ≠ .keyword .DUAL := ne_of_holds h rfl
    have hname := isNameLike_of_endsFactor (endsFactor_of_isJoinWord h)
    rw [headKind] at hname
    simp only [factor, hopen, hlateral, hdual, hname, if_false, Bool.false_eq_true]

theorem passJoinCondition_of_not (hon : headKind rest ≠ .keyword .ON)
    (husing : headKind rest ≠ .keyword .USING) : passJoinCondition rest = rest := by
  cases rest with
  | nil => rfl
  | cons t rest => exact (if_neg hon).trans (if_neg husing)

theorem passJoinCondition_append (h : JoinCondition ts) (hrest : EndsJoin rest) :
    passJoinCondition (ts ++ rest) = rest := by
  cases h with
  | none => exact passJoinCondition_of_not hrest.noExpression hrest.noColumns
  | columns hword hnames =>
    simp [passJoinCondition, hword, passParenthesized_append hnames]
  | expression hword hts =>
    simp [passJoinCondition, hword, passCondition_append hts fun _ => rfl,
      passCondition_zero hrest.ends]

/-- What is read of a join behind its words, and of the joins behind it. -/
def joined (bound : Nat) (inner? : Option Inner) (fuel : Nat) (tokens : List Token) : Reading :=
  let table := factor bound inner? tokens
  let more := joins bound inner? fuel (passJoinCondition table.rest)
  ⟨table.tables ++ more.tables, more.rest⟩

theorem joins_succ {tokens : List Token} (hword : isJoinWord (headKind tokens) = true)
    (hpass : passJoinWords tokens = (true, rest)) (fuel : Nat) :
    joins bound inner? (fuel + 1) tokens = joined bound inner? fuel rest := by
  simp only [joins, hword, if_true, hpass, joined]

theorem passJoinWords_cons {t : Token} (h : t.kind = .keyword .JOIN ∨
    t.kind = .keyword .STRAIGHT_JOIN) (rest : List Token) :
    passJoinWords (t :: rest) = (true, rest) :=
  if_pos (h.imp_right .inl)

/-- The words of a join take no more rounds than they are. A word that introduces a join alone may
stand among them: the join without a table that it introduces is empty. -/
theorem joins_append (bound : Nat) (inner? : Option Inner) (h : JoinWords ts) {fuel : Nat}
    (hfuel : ts.length ≤ fuel) (rest : List Token) : ∃ left, fuel ≤ left + ts.length ∧
      joins bound inner? fuel (ts ++ rest) = joined bound inner? left rest := by
  induction h generalizing fuel with
  | @last t ht =>
    have hword : isJoinWord (headKind (t :: rest)) = true := (JoinWords.last ht).isJoinWord_headKind
    obtain ⟨left, rfl⟩ := Nat.exists_eq_add_of_le' hfuel
    exact ⟨left, Nat.le_refl _, joins_succ hword (passJoinWords_cons ht rest) left⟩
  | @more t ts ht hts ih =>
    have hword : isJoinWord (headKind (t :: (ts ++ rest))) = true := ht
    have hnext : isJoinWord (headKind (ts ++ rest)) = true :=
      headKind_append hts.isJoinWord_headKind rfl rest
    rw [List.length_cons] at hfuel ⊢
    obtain ⟨fuel, rfl⟩ := Nat.exists_eq_add_of_le' (Nat.le_of_add_left_le hfuel)
    by_cases hlast : t.kind = .keyword .JOIN ∨ t.kind = .keyword .STRAIGHT_JOIN
    · obtain ⟨left, hleft, hread⟩ := @ih fuel (by omega)
      refine ⟨left, by omega, ?_⟩
      have hempty : joined bound inner? fuel (ts ++ rest) =
          joins bound inner? fuel (ts ++ rest) := by
        have hon : headKind (ts ++ rest) ≠ .keyword .ON := ne_of_holds hnext rfl
        have husing : headKind (ts ++ rest) ≠ .keyword .USING := ne_of_holds hnext rfl
        simp only [joined, factor_of_isJoinWord hnext, passJoinCondition_of_not hon husing,
          List.nil_append]
      rw [List.cons_append, joins_succ hword (passJoinWords_cons hlast _), hempty, hread]
    · obtain ⟨left, hleft, hread⟩ := @ih (fuel + 1) (by omega)
      refine ⟨left, by omega, ?_⟩
      have hpass : passJoinWords (t :: (ts ++ rest)) = passJoinWords (ts ++ rest) := by
        have heof : t.kind ≠ .eof := ne_of_holds ht rfl
        rw [not_or] at hlast
        simp only [passJoinWords, hlast, heof, ht, or_self, if_true, if_false]
      rw [← hread, List.cons_append]
      simp only [joins, hword, hnext, if_true, hpass]

theorem joins_of_not (h : isJoinWord (headKind rest) = false) (fuel : Nat) :
    joins bound inner? fuel rest = ⟨[], rest⟩ := by
  cases fuel with
  | zero => rfl
  | succ fuel => simp only [joins, h, if_false, Bool.false_eq_true]

theorem reference_of_factor {tables : List TableReference} {tokens : List Token}
    (hstarts : startsFactor (headKind tokens) = true)
    (hfactor : factor bound inner? tokens = ⟨tables, rest⟩) :
    reference bound inner? tokens =
      ⟨tables ++ (joins bound inner? bound rest).tables, (joins bound inner? bound rest).rest⟩ := by
  have hbrace : headKind tokens ≠ .symbol .openCurly := ne_of_holds hstarts rfl
  simp only [reference, hbrace, if_false, hfactor]

theorem list_of_last {tables : List TableReference} {tokens : List Token}
    (hfirst : reference bound inner? tokens = ⟨tables, rest⟩)
    (hend : isClauseEnd (headKind rest) = true) (fuel : Nat) :
    list bound inner? (fuel + 1) tokens = ⟨tables, rest⟩ := by
  have hcomma : headKind rest ≠ .symbol .comma := ne_of_holds hend rfl
  simp [list, hfirst, hcomma, hend]

/-- In front of a token that fits nowhere, the list goes on behind that token. -/
theorem list_of_stray {stray : Token} {tables : List TableReference} {tokens : List Token}
    (hfirst : reference bound inner? tokens = ⟨tables, stray :: rest⟩)
    (hstarts : startsReference (headKind tokens) = true)
    (hstray : isClauseEnd stray.kind = false) (fuel : Nat) :
    list bound inner? (fuel + 1) tokens =
      ⟨tables ++ (list bound inner? fuel rest).tables, (list bound inner? fuel rest).rest⟩ := by
  have hgoOn : headKind (stray :: rest) = .symbol .comma ∨
      (startsReference (headKind tokens) = true ∧ isClauseEnd (headKind (stray :: rest)) = false) :=
    .inr ⟨hstarts, hstray⟩
  simp only [list, hfirst, hgoOn, if_true, List.drop_succ_cons, List.drop_zero]

theorem list_of_comma {comma : Token} {tables : List TableReference} {tokens : List Token}
    (hfirst : reference bound inner? tokens = ⟨tables, comma :: rest⟩)
    (hcomma : comma.kind = .symbol .comma) (fuel : Nat) :
    list bound inner? (fuel + 1) tokens =
      ⟨tables ++ (list bound inner? fuel rest).tables, (list bound inner? fuel rest).rest⟩ := by
  simp [list, hfirst, headKind, hcomma]

end Joins

/-! ## Tables within reach -/

/-- The tables that stand in no more than so many lists in parentheses. -/
def within (room : Nat) (found : List Placed) : List TableReference :=
  (found.filter (·.groups ≤ room)).map Placed.table

section Within

variable {room : Nat} {found more : List Placed}

theorem within_append : within room (found ++ more) = within room found ++ within room more := by
  simp [within]

theorem within_enclosed_succ : within (room + 1) (found.map .enclosed) = within room found := by
  simp [within, List.filter_map, Function.comp_def, Placed.enclosed]

theorem within_enclosed_zero : within 0 (found.map .enclosed) = [] := by
  simp [within, List.filter_map, Function.comp_def, Placed.enclosed]

theorem within_of_forall (h : ∀ p ∈ found, p.groups ≤ room) :
    within room found = found.map Placed.table := by
  rw [within, List.filter_eq_self.2]
  simpa using h

end Within

/-! ## Lists -/

/-- What can be behind a part of a list. -/
def Ends : Part → List Token → Prop
  | .factor => EndsTable
  | .joins | .reference => EndsReference
  | .list => EndsList

/-- The reader for a part of a list, with room for so many groups. -/
def reader (bound room fuel : Nat) : Part → Reader
  | .factor => factor bound (inside? bound room)
  | .joins => joins bound (inside? bound room) fuel
  | .reference => reference bound (inside? bound room)
  | .list => list bound (inside? bound room) fuel

/-- The readers take the tokens of each part and no more, and find the tables within reach. -/
theorem Presents.reader_append {part : Part} {ts rest : List Token} {found : List Placed}
    (h : Presents part ts found) {bound room fuel : Nat} (hbound : ts.length ≤ bound)
    (hfuel : ts.length ≤ fuel) (hrest : Ends part rest) :
    reader bound room fuel part (ts ++ rest) = ⟨within room found, rest⟩ := by
  -- The room goes down with each group and the fuel with each join and each comma; the bound is
  -- that of the whole clause and is the fuel of what a part is made of.
  induction h generalizing room fuel rest with
  | dual ht => exact factor_of_dual ht rest
  | single h => exact factor_of_singleTable h hbound hrest
  | derived h => exact factor_of_derivedTable h (EndsTable.ends hrest)
  | @group opening closing ts found hopen hclose hquery hts ih =>
    rw [List.length_cons, List.length_append] at hbound
    cases room with
    | zero =>
      rw [within_enclosed_zero]
      exact factor_of_group_none (.mk hopen hclose hts.balanced) hquery rest
    | succ room =>
      have hlist := @ih (closing :: rest) room bound (by omega) (by omega)
        (endsList_close hclose rest)
      rw [within_enclosed_succ]
      exact factor_of_group_some hopen hclose hts.balanced hquery hlist
  | noJoins => exact joins_of_not (EndsReference.noJoin hrest) fuel
  | @join words ts condition us found more hwords hts hcondition hus ihts ihus =>
    simp only [List.length_append] at hbound hfuel
    have hends : EndsJoin (us ++ rest) := hus.endsJoin hrest
    have hwordsFuel : words.length ≤ fuel := by omega
    obtain ⟨left, hleft, hread⟩ := joins_append bound (inside? bound room) hwords hwordsFuel
      (ts ++ (condition ++ (us ++ rest)))
    have hfactor := @ihts (condition ++ (us ++ rest)) room fuel (by omega) (by omega)
      (hcondition.endsFactor hends).endsTable
    have hmore := @ihus rest room left (by omega) (by omega) hrest
    simp only [reader] at hfactor hmore ⊢
    simp only [List.append_assoc, hread, joined, hfactor, passJoinCondition_append hcondition hends,
      hmore, within_append]
  | @reference ts us found more hts hus ihts ihus =>
    rw [List.length_append] at hbound hfuel
    have hstarts := headKind_append hts.startsFactor_of_factor rfl (us ++ rest)
    have hfactor := @ihts (us ++ rest) room fuel (by omega) (by omega)
      (hus.endsJoin hrest).toEndsFactor.endsTable
    have hmore := @ihus rest room bound (by omega) (by omega) hrest
    simp only [reader] at hfactor hmore ⊢
    rw [List.append_assoc, reference_of_factor hstarts hfactor, hmore, within_append]
  | @last ts found hts ih =>
    have hne := ne_nil_of_headKind hts.startsFactor_of_reference rfl
    obtain ⟨fuel, rfl⟩ := Nat.exists_eq_add_of_le' (Nat.le_trans (List.length_pos_iff.2 hne) hfuel)
    have hfirst := @ih rest room bound hbound hbound (EndsList.endsReference hrest)
    exact list_of_last hfirst (EndsList.ends hrest) fuel
  | @comma ts us comma found more hts hcomma hus ihts ihus =>
    rw [List.length_append, List.length_cons] at hbound hfuel
    obtain ⟨fuel, rfl⟩ := Nat.exists_eq_succ_of_ne_zero (n := fuel) (by omega)
    have hfirst := @ihts (comma :: (us ++ rest)) room bound (by omega) (by omega)
      (hus.endsReference_comma hcomma rest)
    have hmore := @ihus rest room fuel (by omega) (by omega) hrest
    simp only [reader] at hfirst hmore ⊢
    rw [List.append_assoc, List.cons_append, list_of_comma hfirst hcomma, hmore, within_append]

theorem factor_of_presents {ts rest : List Token} {found : List Placed} {bound room : Nat}
    (h : Presents .factor ts found) (hbound : ts.length ≤ bound) (hrest : EndsTable rest) :
    factor bound (inside? bound room) (ts ++ rest) = ⟨within room found, rest⟩ := by
  have hread : reader bound room ts.length .factor (ts ++ rest) = ⟨within room found, rest⟩ :=
    h.reader_append hbound (Nat.le_refl _) hrest
  exact hread

/-- A single table is read as a list of one table. -/
theorem list_of_singleTable {ts rest : List Token} {table : TableReference}
    {bound room fuel : Nat} (h : SingleTable ts table) (hbound : ts.length ≤ bound)
    (hfuel : ts.length ≤ fuel) (hrest : EndsList rest) :
    list bound (inside? bound room) fuel (ts ++ rest) = ⟨[table], rest⟩ := by
  have hlist := (Presents.single h).list_of_factor
  have hread : reader bound room fuel .list (ts ++ rest) = ⟨[table], rest⟩ :=
    hlist.reader_append hbound hfuel hrest
  exact hread

/-- A name alone is read as a list of one table. -/
theorem list_of_name {ts rest : List Token} {table : TableReference} {bound room fuel : Nat}
    (h : NamePart ts table) (hbound : ts.length ≤ bound) (hfuel : ts.length ≤ fuel)
    (hrest : EndsList rest) :
    list bound (inside? bound room) fuel (ts ++ rest) = ⟨[table], rest⟩ :=
  list_of_singleTable h.singleTable hbound hfuel hrest

/-- A clause with a table `c` behind all others: its first word, the name of that table, and what is
behind it. What stands between is open. -/
structure ClauseFrame where
  start : Token
  last : List Token
  rest : List Token
  c : TableReference
  hstart : start.kind = .keyword .FROM
  hc : NamePart last c
  hrest : EndsList rest

/-- Behind its first word, a clause is read as a list with more fuel than it has tokens. -/
theorem tables_cons {start : Token} (hstart : start.kind = .keyword .FROM) (tokens : List Token) :
    tables (start :: tokens) = (list (tokens.length + 1)
      (inside? (tokens.length + 1) maxNesting) (tokens.length + 1) tokens).tables := by
  rw [tables, passOver, if_pos hstart]

/-- The tables of a well-formed clause are found, each as it is written and in the order of the
text, unless it stands in more lists in parentheses than are read. So all of them are found where no
list is nested deeper. -/
theorem tables_of_presents {start : Token} {ts rest : List Token} {found : List Placed}
    (hstart : start.kind = .keyword .FROM) (h : Presents .list ts found) (hrest : EndsList rest) :
    tables (start :: (ts ++ rest)) = within maxNesting found ∧
      ((∀ p ∈ found, p.groups ≤ maxNesting) →
        tables (start :: (ts ++ rest)) = found.map Placed.table) := by
  have hpass : passOver (.keyword .FROM) (start :: (ts ++ rest)) = ts ++ rest := if_pos hstart
  have hlong : ts.length ≤ (ts ++ rest).length + 1 := by
    rw [List.length_append]
    omega
  have hread : reader _ maxNesting _ .list (ts ++ rest) = ⟨within maxNesting found, rest⟩ :=
    h.reader_append hlong hlong hrest
  have htables : tables (start :: (ts ++ rest)) = within maxNesting found := by
    rw [tables, hpass]
    exact congrArg Reading.tables hread
  exact ⟨htables, fun hdepth => htables.trans (within_of_forall hdepth)⟩

/-- A token written from a place on. -/
def writtenAt (start : Nat) (kind : Terminal) (text : String) : Token :=
  ⟨kind, text, ⟨start, start + text.length⟩, 0⟩

/-- The word that a clause at the start of a text starts with. -/
def fromWord : Token := writtenAt 0 (.keyword .FROM) "FROM"

theorem kind_fromWord : fromWord.kind = .keyword .FROM := rfl

/-- The name `a` behind that word. -/
def firstName : Token := writtenAt 5 (.symbol .identifier) "a"

theorem namePart_firstName : NamePart [firstName] (.ofTable ⟨"a", ⟨5, 6⟩⟩ none) := .bare rfl

/-- A table with schema, alias and index hint, from place 5 on: ``d`.u AS x USE KEY (k)`. -/
def hintedTable : List Token :=
  [writtenAt 5 (.symbol .backTickQuotedId) "`d`", writtenAt 8 (.symbol .dot) ".",
    writtenAt 9 (.symbol .identifier) "u", writtenAt 11 (.keyword .AS) "AS",
    writtenAt 14 (.symbol .identifier) "x", writtenAt 16 (.keyword .USE) "USE",
    writtenAt 20 (.keyword .KEY) "KEY", writtenAt 24 (.symbol .openPar) "(",
    writtenAt 25 (.symbol .identifier) "k", writtenAt 26 (.symbol .closePar) ")"]

/-- A list in parentheses, from place 29 on: `(DUAL, v)`. -/
def groupedTable : List Token :=
  writtenAt 29 (.symbol .openPar) "(" ::
    ([writtenAt 30 (.keyword .DUAL) "DUAL", writtenAt 34 (.symbol .comma) ",",
      writtenAt 36 (.symbol .identifier) "v"] ++ [writtenAt 37 (.symbol .closePar) ")"])

/-- A join with a query, from place 39 on: `LEFT JOIN (SELECT 1) w ON (a, b)`. -/
def joinedQuery : List Token :=
  [writtenAt 39 (.keyword .LEFT) "LEFT", writtenAt 44 (.keyword .JOIN) "JOIN",
    writtenAt 49 (.symbol .openPar) "(", writtenAt 50 (.keyword .SELECT) "SELECT",
    writtenAt 57 (.symbol .intNumber) "1", writtenAt 58 (.symbol .closePar) ")",
    writtenAt 60 (.symbol .identifier) "w", writtenAt 62 (.keyword .ON) "ON",
    writtenAt 65 (.symbol .openPar) "(", writtenAt 66 (.symbol .identifier) "a",
    writtenAt 67 (.symbol .comma) ",", writtenAt 69 (.symbol .identifier) "b",
    writtenAt 70 (.symbol .closePar) ")"]

theorem tables_of_presents_outerJoin :
    let clause := hintedTable ++ writtenAt 27 (.symbol .comma) "," :: (groupedTable ++ joinedQuery)
    let rest := [writtenAt 72 (.keyword .WHERE) "WHERE"]
    let u : TableReference := ⟨.table, some "u", ⟨9, 10⟩, some ⟨"x", ⟨14, 15⟩⟩, some ⟨"d", ⟨5, 8⟩⟩⟩
    let v : TableReference := ⟨.table, some "v", ⟨36, 37⟩, none, none⟩
    Presents .list clause [⟨u, 0⟩, ⟨v, 1⟩] ∧ EndsList rest ∧
      tables (writtenAt 0 (.keyword .FROM) "FROM" :: (clause ++ rest)) = [u, v] := by
  intro clause rest u v
  have hhint : Hint (hintedTable.drop 5) :=
    .mk rfl rfl .everything (.mk rfl rfl (.plain rfl rfl .nil))
  have hu : Presents .reference hintedTable [⟨u, 0⟩] :=
    .reference (.single (.mk (.inSchema rfl rfl rfl) .none (.marked rfl rfl) (.next hhint .none)))
      .noJoins
  have hopens : ¬ OpensQuery groupedTable := by
    rw [groupedTable, opensQuery_open rfl, List.cons_append, opensQuery_word (by decide)]
    decide
  have hv : Presents .factor groupedTable [⟨v, 1⟩] :=
    .group rfl rfl hopens
      (.comma (.reference (.dual rfl) .noJoins) rfl (presents_name rfl).list_of_factor)
  have hquery : DerivedTable (joinedQuery.extract 2 7) :=
    .plain (.mk rfl rfl (.plain rfl rfl (.plain rfl rfl .nil))) (.behind rfl (.word rfl))
      (.bare rfl)
  have hcondition : JoinCondition (joinedQuery.drop 7) :=
    .expression rfl
      (.group rfl rfl (.plain rfl rfl (.plain rfl rfl (.plain rfl rfl .nil))) .nil)
  have hjoin : Presents .joins joinedQuery [] :=
    .join (.more rfl (.last (.inl rfl))) (.derived hquery) hcondition .noJoins
  have hlist : Presents .list clause [⟨u, 0⟩, ⟨v, 1⟩] :=
    .comma hu rfl (.last (.reference hv hjoin))
  have hends : EndsList rest := ⟨rfl, by decide, by decide⟩
  exact ⟨hlist, hends, (tables_of_presents rfl hlist hends).2 (by decide)⟩

/-- The table `t` at place 70, in so many parentheses. -/
def nestedTable : (depth : Nat) → List Token
  | 0 => [writtenAt 70 (.symbol .identifier) "t"]
  | depth + 1 =>
    writtenAt (69 - depth) (.symbol .openPar) "(" ::
      (nestedTable depth ++ [writtenAt (71 + depth) (.symbol .closePar) ")"])

theorem not_opensQuery_nestedTable (depth : Nat) (rest : List Token) :
    ¬ OpensQuery (nestedTable depth ++ rest) := by
  induction depth generalizing rest with
  | zero =>
    rw [nestedTable, List.singleton_append, opensQuery_word (by decide)]
    decide
  | succ depth ih =>
    rw [nestedTable, List.cons_append, opensQuery_open rfl, List.append_assoc]
    exact ih _

theorem presents_nestedTable (depth : Nat) :
    Presents .list (nestedTable depth) [⟨.ofTable ⟨"t", ⟨70, 71⟩⟩ none, depth⟩] := by
  induction depth with
  | zero => exact (presents_name rfl).list_of_factor
  | succ depth ih =>
    have hquery := not_opensQuery_nestedTable (depth + 1) []
    rw [List.append_nil] at hquery
    exact (Presents.group rfl rfl hquery ih).list_of_factor

/-- What is out of reach: a table in 65 parentheses, and a table behind a semicolon, which is no
keyword and ends the condition of a join all the same. -/
theorem tables_out_of_reach :
    (Presents .list (nestedTable 65) [⟨.ofTable ⟨"t", ⟨70, 71⟩⟩ none, 65⟩] ∧
      tables (writtenAt 0 (.keyword .FROM) "FROM" :: nestedTable 65) = []) ∧
    (let stops (kind : Terminal) :=
        kind == .symbol .comma || isJoinWord kind || kind.isKeyword && isClauseEnd kind
      let condition :=
        [writtenAt 17 (.symbol .identifier) "x", writtenAt 19 (.symbol .semicolon) ";"]
      Balanced stops condition ∧
        (tables ([writtenAt 0 (.keyword .FROM) "FROM", writtenAt 5 (.symbol .identifier) "a",
            writtenAt 7 (.keyword .JOIN) "JOIN", writtenAt 12 (.symbol .identifier) "b",
            writtenAt 14 (.keyword .ON) "ON"] ++ condition ++
          [writtenAt 21 (.symbol .comma) ",", writtenAt 23 (.symbol .identifier) "c"])).map
          TableReference.table? = [some "a", some "b"]) := by
  refine ⟨⟨presents_nestedTable 65, by decide +kernel⟩, ?_, by decide +kernel⟩
  exact .plain rfl rfl (.plain rfl rfl .nil)

end SqlCompletion.FromClause
