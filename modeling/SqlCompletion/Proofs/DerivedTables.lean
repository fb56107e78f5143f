import SqlCompletion.Proofs.Nesting
import SqlCompletion.Proofs.TableReading
import SqlCompletion.Proofs.TableRecognition
set_option autoImplicit false

/-!
# Derived tables of the grammar

A query in parentheses is a table without a name in the catalog, and the readers of a clause pass
over it and its alias. The MySQL grammar has more behind a query than they know of: the names of its
columns, and an alias behind a sign of equality. What they read then is told here for every derived
table of the grammar, between two tables of a clause (`tables_of_derivedTable`).

* With an alias as for tables and no names of columns, exactly the two tables are found.
* A name that is equated with the query is taken for a table.
* The names of columns are taken for tables too, and the list of tables is over behind them, so that
  the last table is lost.

The first step is to see in the grammar what a derived table can be: `QueryTable` tells it by the
query in parentheses and by what stands behind it, and every derivation of the rule is one
(`queryTable_of_derivedTable`). A query starts with one of its words, behind parentheses or not
(`opensQuery_of_queryExpression`), which is what the readers tell it by. The second step is to read
on behind a reference that has a list of names behind it (`list_of_columns`).

Whatever the query is, nothing in it is read; it only has to be balanced, as all phrases of the
grammar are. The alias and the columns are names of the grammar, quoted or not.
-/

namespace SqlCompletion

namespace FromClause

/-! ## What stands behind a query -/

/-- Names between commas. -/
inductive Names : List Token → List Token → Prop
  | last {t : Token} (ht : t.kind.isNameLike = true) : Names [t] [t]
  | more {t comma : Token} {ts names : List Token} (ht : t.kind.isNameLike = true)
      (hcomma : comma.kind = .symbol .comma) (hts : Names ts names) :
      Names (t :: comma :: ts) (t :: names)

/-- Names of columns in parentheses, if there are any. -/
inductive Columns : List Token → List Token → Prop
  | none : Columns [] []
  | named {opening closing : Token} {ts names : List Token}
      (hopen : opening.kind = .symbol .openPar) (hclose : closing.kind = .symbol .closePar)
      (hts : Names ts names) : Columns (opening :: (ts ++ [closing])) names

/-- An alias behind a sign of equality, if there is one. -/
inductive EquatedAlias : List Token → List Token → Prop
  | none : EquatedAlias [] []
  | equated {mark name : Token} (hmark : mark.kind = .symbol .equal)
      (hname : name.kind.isNameLike = true) : EquatedAlias [mark, name] [name]

/-- A derived table with what may stand behind it: the name that is equated with it and the names of
its columns. -/
inductive QueryTable : List Token → (equated columns : List Token) → Prop
  | mk {query mark list equated columns : List Token} (hquery : DerivedTable query)
      (hmark : EquatedAlias mark equated) (hlist : Columns list columns) :
      QueryTable (query ++ (mark ++ list)) equated columns

theorem OpensQuery.append {ts : List Token} (h : OpensQuery ts) (us : List Token) :
    OpensQuery (ts ++ us) := by
  induction h with
  | word h => exact .word h
  | behind hopen _ ih => exact .behind hopen ih

end FromClause

/-! ## The derived tables of the MySQL grammar -/

namespace Mysql

open FromClause

variable {v : Version} {ts : List Token}

/-- A query starts with one of its words, behind parentheses or not. -/
theorem opensQuery_of_queryExpression
    (h : grammar.Derives v (.rule .queryExpression) (ts.map Token.kind)) : OpensQuery ts := by
  -- A query in parentheses is shorter than the query that starts with it.
  induction hlength : ts.length using Nat.strong_induction_on generalizing ts with
  | _ n ih =>
    subst hlength
    obtain ⟨common, more, rfl, hcommon, hmore⟩ := (derives_body h).exists_append
    rcases hcommon.eq_nil_or with rfl | hcommon
    · obtain ⟨queries, ordered, rfl, hqueries, -⟩ := hmore.exists_append
      obtain ⟨first, others, rfl, hfirst, -⟩ := (derives_body hqueries).exists_append
      refine OpensQuery.append (OpensQuery.append ?_ others) ordered
      obtain ⟨e, he, hfirst⟩ := (derives_body hfirst).exists_chosen
      simp only [List.mem_cons, List.not_mem_nil, or_false] at he
      rcases he with rfl | rfl | rfl
      · obtain ⟨word, _, rfl, hword, -⟩ := (derives_body hfirst).exists_cons
        exact .word (by rw [hword]; rfl)
      · obtain ⟨opening, inside, rfl, hopen, hinside⟩ := hfirst.exists_cons
        obtain ⟨query, closing, rfl, hquery, -⟩ := hinside.exists_append
        refine .behind hopen (OpensQuery.append (ih query.length ?_ hquery rfl) closing)
        simp only [List.length_append, List.length_cons, List.length_nil]
        omega
      · obtain ⟨word, _, rfl, hword, -⟩ := hfirst.of_since.exists_cons
        exact .word (by rw [hword]; rfl)
    · obtain ⟨word, _, rfl, hword, -⟩ := (derives_body hcommon.of_since).exists_cons
      exact .word (by rw [hword]; rfl)

/-- A query in parentheses is a group that a query starts in. -/
theorem isGroup_of_subquery (h : grammar.Derives v (.rule .subquery) (ts.map Token.kind)) :
    IsGroup ts ∧ OpensQuery ts := by
  obtain ⟨opening, inside, rfl, hopen, hinside⟩ := (derives_body h).exists_cons
  obtain ⟨query, last, rfl, hquery, hlast⟩ := hinside.exists_append
  obtain ⟨closing, none, rfl, hclose, hnone⟩ := hlast.exists_cons
  obtain rfl := hnone.eq_nil
  exact ⟨.mk hopen hclose (balanced_of_phrase rfl hquery),
    .behind hopen ((opensQuery_of_queryExpression hquery).append _)⟩

theorem names_of_separated
    (h : grammar.Derives v (.separated .ident .comma) (ts.map Token.kind)) :
    ∃ names, Names ts names := by
  induction hlength : ts.length using Nat.strong_induction_on generalizing ts with
  | _ n ih =>
    subst hlength
    obtain ⟨first, more, rfl, hfirst, hmore⟩ := h.exists_append
    obtain ⟨t, rfl, ht⟩ := hfirst.exists_name
    obtain ⟨rounds, none, rfl, hrounds, hnone⟩ := hmore.exists_append
    obtain rfl := hnone.eq_nil
    rcases hrounds.eq_nil_or_append with rfl | ⟨round, others, rfl, hround, hothers⟩
    · exact ⟨[t], .last ht⟩
    · obtain ⟨comma, name, rfl, hcomma, hname⟩ := hround.exists_cons
      obtain ⟨one, none, rfl, hone, hnone⟩ := hname.exists_append
      obtain rfl := hnone.eq_nil
      obtain ⟨u, rfl, hu⟩ := hone.exists_name
      have hagain :
          grammar.Derives v (.separated .ident .comma) ((u :: others).map Token.kind) := by
        have hseq := Grammar.Derives.seqCons (.ident hu) (.seqCons hothers .seqNil)
        rwa [List.append_nil] at hseq
      obtain ⟨names, hnames⟩ := ih _ (by simp) hagain rfl
      refine ⟨t :: names, ?_⟩
      simpa using Names.more ht hcomma hnames

theorem columns_of_identifierList
    (h : grammar.Derives v (.opt (.rule .identifierListWithParentheses)) (ts.map Token.kind)) :
    ∃ columns, Columns ts columns := by
  rcases h.eq_nil_or with rfl | h
  · exact ⟨[], .none⟩
  · obtain ⟨opening, inside, rfl, hopen, hinside⟩ := (derives_body h).exists_cons
    obtain ⟨list, last, rfl, hlist, hlast⟩ := hinside.exists_append
    obtain ⟨closing, none, rfl, hclose, hnone⟩ := hlast.exists_cons
    obtain rfl := hnone.eq_nil
    obtain ⟨names, hnames⟩ := names_of_separated hlist
    exact ⟨names, .named hopen hclose hnames⟩

/-- An alias as it is read, or one behind a sign of equality. -/
theorem alias_of_tableAlias
    (h : grammar.Derives v (.opt (.rule .tableAlias)) (ts.map Token.kind)) :
    (∃ alias?, AliasPart ts alias?) ∨ ∃ equated, EquatedAlias ts equated := by
  rcases h.eq_nil_or with rfl | h
  · exact .inl ⟨none, .none⟩
  · obtain ⟨mark, last, rfl, hmark, hlast⟩ := (derives_body h).exists_append
    obtain ⟨one, none, rfl, hone, hnone⟩ := hlast.exists_append
    obtain rfl := hnone.eq_nil
    obtain ⟨t, rfl, ht⟩ := hone.exists_name
    rcases hmark.eq_nil_or with rfl | hmark
    · exact .inl ⟨_, .bare ht⟩
    · obtain ⟨e, he, hmark⟩ := hmark.exists_chosen
      simp only [List.mem_cons, List.not_mem_nil, or_false] at he
      rcases he with rfl | rfl
      · obtain ⟨word, rfl, hword⟩ := hmark.exists_token
        exact .inl ⟨_, .marked hword (isAlias_true_of ((isAlias_false _).trans ht))⟩
      · obtain ⟨word, rfl, hword⟩ := hmark.exists_token
        exact .inr ⟨_, .equated hword ht⟩

/-- A query with its alias and its columns, behind `LATERAL` or not. -/
theorem queryTable_of_subquery (front : List Token)
    (hderived : ∀ query named alias?, IsGroup query → OpensQuery query → AliasPart named alias? →
      DerivedTable (front ++ (query ++ named)))
    (h : grammar.Derives v (.seq [.rule .subquery, .opt (.rule .tableAlias),
      .opt (.rule .identifierListWithParentheses)]) (ts.map Token.kind)) :
    ∃ equated columns, QueryTable (front ++ ts) equated columns := by
  obtain ⟨query, more, rfl, hquery, hmore⟩ := h.exists_append
  obtain ⟨named, last, rfl, hnamed, hlast⟩ := hmore.exists_append
  obtain ⟨list, none, rfl, hlist, hnone⟩ := hlast.exists_append
  obtain rfl := hnone.eq_nil
  obtain ⟨hgroup, hopens⟩ := isGroup_of_subquery hquery
  obtain ⟨columns, hcolumns⟩ := columns_of_identifierList hlist
  rcases alias_of_tableAlias hnamed with ⟨alias?, halias⟩ | ⟨equated, hequated⟩
  · refine ⟨[], columns, ?_⟩
    simpa using QueryTable.mk (hderived query named alias? hgroup hopens halias) .none hcolumns
  · refine ⟨equated, columns, ?_⟩
    simpa using QueryTable.mk (hderived query [] none hgroup hopens .none) hequated hcolumns

/-- What the grammar takes for a derived table. -/
theorem queryTable_of_derivedTable
    (h : grammar.Derives v (.rule .derivedTable) (ts.map Token.kind)) :
    ∃ equated columns, QueryTable ts equated columns := by
  obtain ⟨e, he, h⟩ := (derives_body h).exists_chosen
  simp only [List.mem_cons, List.not_mem_nil, or_false] at he
  rcases he with rfl | rfl
  · exact queryTable_of_subquery [] (fun _ _ _ => .plain) h
  · obtain ⟨word, more, rfl, hword, hmore⟩ := h.of_since.exists_cons
    exact queryTable_of_subquery [word] (fun _ _ _ => .lateral hword) hmore

end Mysql

namespace FromClause

/-! ## Reading on behind a derived table -/

/-- The table that a name stands for. -/
def tableNamed (t : Token) : TableReference := .ofTable (nameOf t) none

section

variable {bound room : Nat} {ts rest : List Token}

/-- A factor without joins is a reference of its own. -/
theorem reference_append {found : List Placed} (h : Presents .factor ts found)
    (hbound : ts.length ≤ bound) (hrest : EndsTable rest)
    (hjoin : isJoinWord (headKind rest) = false) :
    reference bound (inside? bound room) (ts ++ rest) = ⟨within room found, rest⟩ := by
  have hstarts := headKind_append h.startsFactor_of_factor rfl rest
  rw [reference_of_factor hstarts (factor_of_presents h hbound hrest), joins_of_not hjoin,
    List.append_nil]

theorem Names.presents {names : List Token} (h : Names ts names) :
    Presents .list ts (names.map fun t => ⟨tableNamed t, 0⟩) := by
  induction h with
  | last ht => exact (presents_name ht).list_of_factor
  | more ht hcomma _ ih =>
    have hfirst := Presents.reference (presents_name ht) .noJoins
    exact .comma hfirst hcomma ih

theorem within_names (room : Nat) (names : List Token) :
    within room (names.map fun t => ⟨tableNamed t, 0⟩) = names.map tableNamed := by
  rw [within_of_forall (by simp)]
  simp [Function.comp_def]

/-- Behind a reference the names of columns are taken for tables, and the list is over; without them
it goes on behind the comma. -/
theorem list_of_columns {names tokens more : List Token} {comma : Token}
    {tables : List TableReference} {fuel : Nat} (hcolumns : Columns ts names)
    (hfirst : reference bound (inside? bound room) tokens = ⟨tables, ts ++ comma :: more⟩)
    (hstarts : startsReference (headKind tokens) = true) (hcomma : comma.kind = .symbol .comma)
    (hbound : ts.length ≤ bound) (hfuel : ts.length ≤ fuel) :
    (list bound (inside? bound room) (fuel + 1) tokens).tables =
      tables ++ (names.map tableNamed ++
        if names = [] then (list bound (inside? bound room) fuel more).tables else []) := by
  cases hcolumns with
  | none =>
    rw [list_of_comma hfirst hcomma]
    rfl
  | @named opening closing ts names hopen hclose hts =>
    rw [List.length_cons, List.length_append] at hbound hfuel
    rw [List.cons_append, List.append_assoc] at hfirst
    have hnames : list bound (inside? bound room) fuel (ts ++ closing :: (comma :: more)) =
        ⟨names.map tableNamed, closing :: (comma :: more)⟩ := by
      rw [← within_names room]
      exact hts.presents.reader_append (by omega) (by omega) (endsList_close hclose _)
    have hsome : names ≠ [] := by
      cases hts with
      | last => exact List.cons_ne_nil _ _
      | more => exact List.cons_ne_nil _ _
    have hstray : isClauseEnd opening.kind = false := congrArg isClauseEnd hopen
    rw [list_of_stray hfirst hstarts hstray, List.singleton_append, hnames, if_neg hsome,
      List.append_nil]

end

/-! ## Clauses with a derived table -/

/-- A clause `FROM a, ..., c`, but for the derived table. -/
structure QueryClause extends ClauseFrame where
  first : List Token
  before : Token
  after : Token
  a : TableReference
  ha : NamePart first a
  hbefore : before.kind = .symbol .comma
  hafter : after.kind = .symbol .comma

namespace QueryClause

variable (q : QueryClause) {bound room fuel : Nat} {ts : List Token}

/-- The clause with a derived table in its place. -/
def tokens (derived : List Token) : List Token :=
  q.start :: (q.first ++ q.before :: (derived ++ q.after :: (q.last ++ q.rest)))

/-- What may stand between the derived table and the last table ends a table. -/
theorem endsTable_append {mark list equated columns : List Token}
    (hmark : EquatedAlias mark equated) (hlist : Columns list columns) :
    EndsTable (mark ++ (list ++ q.after :: (q.last ++ q.rest))) ∧
      isJoinWord (headKind (mark ++ (list ++ q.after :: (q.last ++ q.rest)))) = false := by
  cases hmark with
  | equated hmark =>
    exact ⟨endsTable_cons hmark rfl (by decide) _, congrArg isJoinWord hmark⟩
  | none =>
    cases hlist with
    | named hopen =>
      exact ⟨endsTable_cons hopen rfl (by decide) _, congrArg isJoinWord hopen⟩
    | none =>
      have hlast := (Presents.single q.hc.singleTable).list_of_factor
      have hends := hlast.endsReference_comma q.hafter q.rest
      exact ⟨hends.endsTable, hends.noJoin⟩

/-- Behind a reference, the name that is equated and the names of columns are taken for tables. -/
theorem list_of_trailer {mark list' equated columns tokens : List Token}
    {tables : List TableReference} (hmark : EquatedAlias mark equated)
    (hlist : Columns list' columns)
    (hfirst : reference bound (inside? bound room) tokens =
      ⟨tables, mark ++ (list' ++ q.after :: (q.last ++ q.rest))⟩)
    (hstarts : startsReference (headKind tokens) = true)
    (hbound : list'.length + q.last.length < bound)
    (hfuel : list'.length + q.last.length < fuel) :
    (list bound (inside? bound room) (fuel + 1) tokens).tables =
      tables ++ ((equated ++ columns).map tableNamed ++ if columns = [] then [q.c] else []) := by
  cases hmark with
  | none =>
    have hcolumns := list_of_columns hlist hfirst hstarts q.hafter (by omega)
      (show list'.length ≤ fuel by omega)
    rwa [list_of_name q.hc (by omega) (by omega) q.hrest] at hcolumns
  | @equated mark name hmark hname =>
    obtain ⟨fuel, rfl⟩ := Nat.exists_eq_succ_of_ne_zero (Nat.ne_zero_of_lt hfuel)
    obtain ⟨hends, hjoin⟩ := q.endsTable_append .none hlist
    have hname' : reference bound (inside? bound room)
        (name :: (list' ++ q.after :: (q.last ++ q.rest))) = ⟨[tableNamed name], _⟩ :=
      reference_append (presents_name hname) (by simp; omega) hends hjoin
    have hnameStarts : startsReference (headKind
        (name :: (list' ++ q.after :: (q.last ++ q.rest)))) = true :=
      (presents_name hname).startsReference
    have hcolumns := list_of_columns hlist hname' hnameStarts q.hafter (by omega)
      (show list'.length ≤ fuel by omega)
    rw [list_of_name q.hc (by omega) (by omega) q.hrest] at hcolumns
    have hstray : isClauseEnd mark.kind = false := congrArg isClauseEnd hmark
    rw [list_of_stray hfirst hstarts hstray]
    exact congrArg (tables ++ ·) hcolumns

/-- The tables that are found in a clause with a derived table between two tables. -/
theorem tables_of_queryTable {equated columns : List Token} (h : QueryTable ts equated columns) :
    tables (q.tokens ts) =
      q.a :: ((equated ++ columns).map tableNamed ++ if columns = [] then [q.c] else []) := by
  obtain @⟨query, mark, list', equated, columns, hquery, hmark, hlist⟩ := h
  obtain ⟨hends, hjoin⟩ := q.endsTable_append hmark hlist
  let behind := mark ++ (list' ++ q.after :: (q.last ++ q.rest))
  let clause := q.first ++ q.before :: (query ++ behind)
  have htokens : q.tokens (query ++ (mark ++ list')) = q.start :: clause := by
    simp [tokens, clause, behind]
  have hlength : clause.length = q.first.length + query.length + mark.length + list'.length +
      q.last.length + q.rest.length + 2 := by
    simp [clause, behind]
    omega
  have hderived := Presents.derived hquery
  have hfirst : reference (clause.length + 1) (inside? (clause.length + 1) maxNesting) clause =
      ⟨[q.a], q.before :: (query ++ behind)⟩ := by
    have hcomma := hderived.list_of_factor.endsReference_comma q.hbefore behind
    exact reference_append (.single q.ha.singleTable) (by omega) hcomma.endsTable hcomma.noJoin
  have hsecond : reference (clause.length + 1) (inside? (clause.length + 1) maxNesting)
      (query ++ behind) = ⟨[], behind⟩ :=
    reference_append hderived (by omega) hends hjoin
  have hstarts : startsReference (headKind (query ++ behind)) = true :=
    headKind_append hderived.startsReference rfl _
  obtain ⟨fuel, hfuel⟩ := Nat.exists_eq_add_of_le' (show 1 ≤ clause.length by omega)
  have hmore := q.list_of_trailer hmark hlist hsecond hstarts (by omega)
    (show list'.length + q.last.length < fuel by omega)
  rw [htokens, tables_cons q.hstart, list_of_comma hfirst q.hbefore, hfuel]
  rw [hfuel] at hmore
  exact congrArg (q.a :: ·) hmore

end QueryClause

/-- A derived table of the grammar between two tables, whatever its query is. With an alias as for
tables and no names of columns, exactly the two tables are found. A name that is equated with the
derived table is taken for a table. So are the names of its columns, and behind them the last table
is lost. -/
theorem tables_of_derivedTable (q : QueryClause) {v : Version} {derived : List Token}
    (h : Mysql.grammar.Derives v (.rule .derivedTable) (derived.map Token.kind)) :
    (∃ equated columns, QueryTable derived equated columns) ∧
      ∀ equated columns, QueryTable derived equated columns →
        tables (q.tokens derived) =
          q.a :: ((equated ++ columns).map tableNamed ++ if columns = [] then [q.c] else []) :=
  ⟨Mysql.queryTable_of_derivedTable h, fun _ _ => q.tables_of_queryTable⟩

/-- `FROM a,`, a derived table from place 8 to place 30, and `, c`. -/
def queryClause : QueryClause where
  start := fromWord
  first := [firstName]
  before := writtenAt 6 (.symbol .comma) ","
  after := writtenAt 30 (.symbol .comma) ","
  last := [writtenAt 32 (.symbol .identifier) "c"]
  rest := []
  a := .ofTable ⟨"a", ⟨5, 6⟩⟩ none
  c := .ofTable ⟨"c", ⟨32, 33⟩⟩ none
  hstart := kind_fromWord
  ha := namePart_firstName
  hbefore := rfl
  hafter := rfl
  hc := .bare rfl
  hrest := endsList_nil

/-- The query `(SELECT 1)` from place 8 on. -/
def selectOne : List Token :=
  [writtenAt 8 (.symbol .openPar) "(", writtenAt 9 (.keyword .SELECT) "SELECT",
    writtenAt 16 (.symbol .intNumber) "1", writtenAt 17 (.symbol .closePar) ")"]

theorem tables_of_derivedTable_alias :
    let derived := selectOne ++
      [writtenAt 19 (.keyword .AS) "AS", writtenAt 22 (.symbol .identifier) "d"]
    Mysql.grammar.Derives .standard (.rule .derivedTable) (derived.map Token.kind) ∧
      tables (queryClause.tokens derived) = [queryClause.a, queryClause.c] := by
  intro derived
  have hderived : Mysql.grammar.Derives .standard (.rule .derivedTable)
      (derived.map Token.kind) :=
    .rule rfl (.choice (.head _) (.seqCons Mysql.derives_subquery (.seqCons (.optSome (.rule rfl
      (.seqCons (.optSome (.choice (.head _) (.token _))) (.seqCons (.ident rfl) .seqNil))))
        (.seqCons (.optNone _) .seqNil))))
  have hquery : QueryTable derived [] [] :=
    .mk (.plain (.mk rfl rfl (.plain rfl rfl (.plain rfl rfl .nil))) (.behind rfl (.word rfl))
      (.marked rfl rfl)) .none .none
  exact ⟨hderived, (tables_of_derivedTable queryClause hderived).2 [] [] hquery⟩

/-- The names of columns: `x` and `y` are taken for tables, and the table `c` is lost. -/
theorem tables_of_derivedTable_columns :
    let derived := selectOne ++
      [writtenAt 19 (.keyword .AS) "AS", writtenAt 22 (.symbol .identifier) "d",
        writtenAt 24 (.symbol .openPar) "(", writtenAt 25 (.symbol .identifier) "x",
        writtenAt 26 (.symbol .comma) ",", writtenAt 28 (.symbol .identifier) "y",
        writtenAt 29 (.symbol .closePar) ")"]
    Mysql.grammar.Derives .standard (.rule .derivedTable) (derived.map Token.kind) ∧
      tables (queryClause.tokens derived) =
        [queryClause.a, .ofTable ⟨"x", ⟨25, 26⟩⟩ none, .ofTable ⟨"y", ⟨28, 29⟩⟩ none] := by
  intro derived
  have hcolumns : Mysql.grammar.Derives .standard (.rule .identifierListWithParentheses)
      ((derived.drop 6).map Token.kind) :=
    .rule rfl (.seqCons (.token _) (.seqCons (.seqCons (.ident rfl) (.seqCons (.starCons
      (.seqCons (.token _) (.seqCons (.ident rfl) .seqNil)) (.starNil _)) .seqNil))
        (.seqCons (.token _) .seqNil)))
  have hderived : Mysql.grammar.Derives .standard (.rule .derivedTable)
      (derived.map Token.kind) :=
    .rule rfl (.choice (.head _) (.seqCons Mysql.derives_subquery (.seqCons (.optSome (.rule rfl
      (.seqCons (.optSome (.choice (.head _) (.token _))) (.seqCons (.ident rfl) .seqNil))))
        (.seqCons (.optSome hcolumns) .seqNil))))
  exact ⟨hderived, by decide +kernel⟩

end FromClause

end SqlCompletion
