import SqlCompletion.Proofs.TableReading
import SqlCompletion.Proofs.TableRecognition
set_option autoImplicit false

/-!
# Groups of tables

Parentheses around a list of tables, and braces around an outer join, should change nothing but the
places of the names. Whether they do is told by one look.

* Behind an opening parenthesis it is the first token that is no parenthesis. Where that is
  `SELECT`, the whole list is taken for a query, and its tables are not found
  (`tables_of_enclosed`).
* In front of a closing brace it is the condition of the last join. Without an `ON` the brace ends
  the group. With one the condition goes on behind the brace, and the tables behind the group are
  lost (`tables_of_braced`).

Both compare a clause with the group in it to the clause without, and tell in each case which tables
are found. The tokens of the second clause are those of the first one, moved (`Presents.shift`),
since parentheses need room. The lists are those of `Listed`: single tables, queries with an alias,
lists in parentheses again, and joins without `ON`, nested less deep than is read. In braces there
is a table with any joins (`JoinChain`), the last of which decides.

A query that is read in place of a list has no alias and no tables (`presents_group`). A condition
that has passed the closing brace runs on to the next token that ends one; where a second closing
brace follows, less is lost, and `tables_of_braced` leaves that out by what it asks of the rest of
the clause.
-/

namespace SqlCompletion.FromClause

/-! ## Moving tokens

What is well-formed stays so when it is moved right in the text, and its tables move with it. -/

/-- The table moved right in the text. -/
def Placed.shift (p : Placed) (delta : Nat) : Placed := { p with table := p.table.shift delta }

section Moving

variable {ts : List Token} (delta : Nat)

theorem Balanced.shift {stops : Terminal → Bool} (h : Balanced stops ts) :
    Balanced stops (ts.map (·.shift delta)) := by
  induction h with
  | nil => exact .nil
  | plain ht hstop _ ih => exact .plain ht hstop ih
  | group hopen hclose _ _ ihinside ih =>
    rw [List.map_cons, List.map_append, List.map_cons]
    exact .group hopen hclose ihinside ih

theorem IsGroup.shift (h : IsGroup ts) : IsGroup (ts.map (·.shift delta)) := by
  obtain ⟨hopen, hclose, hinside⟩ := h
  rw [List.map_cons, List.map_append]
  exact .mk hopen hclose (hinside.shift delta)

theorem opensQuery_shift : OpensQuery (ts.map (·.shift delta)) ↔ OpensQuery ts := by
  induction ts with
  | nil => exact Iff.rfl
  | cons t ts ih =>
    rw [List.map_cons]
    by_cases hopen : t.kind = .symbol .openPar
    · rw [opensQuery_open hopen, opensQuery_open (t := t.shift delta) hopen, ih]
    · rw [opensQuery_word hopen, opensQuery_word (t := t.shift delta) hopen]
      rfl

theorem NamePart.shift {table : TableReference} (h : NamePart ts table) :
    NamePart (ts.map (·.shift delta)) (table.shift delta) := by
  cases h with
  | bare htable => exact .bare htable
  | inSchema hschema hpoint htable => exact .inSchema hschema hpoint htable

theorem PartitionPart.shift (h : PartitionPart ts) :
    PartitionPart (ts.map (·.shift delta)) := by
  cases h with
  | none => exact .none
  | named hword hnames => exact .named hword (hnames.shift delta)

theorem AliasPart.shift {alias? : Option NameAt} (h : AliasPart ts alias?) :
    AliasPart (ts.map (·.shift delta)) (alias?.map (·.shift delta)) := by
  cases h with
  | none => exact .none
  | bare ht => exact .bare ht
  | marked hmark ht => exact .marked hmark ht

theorem Hint.shift (h : Hint ts) : Hint (ts.map (·.shift delta)) := by
  obtain @⟨word, index, scope, names, hword, hindex, hscope, hnames⟩ := h
  rw [List.map_cons, List.map_cons, List.map_append]
  refine .mk hword hindex ?_ (hnames.shift delta)
  cases hscope with
  | everything => exact .everything
  | join hmark hword => exact .join hmark hword
  | sorting hmark hword hlast => exact .sorting hmark hword hlast

theorem Hints.shift (h : Hints ts) : Hints (ts.map (·.shift delta)) := by
  induction h with
  | none => exact .none
  | next hhint _ ih =>
    rw [List.map_append]
    exact .next (hhint.shift delta) ih
  | comma hhint hcomma _ hne ih =>
    rw [List.map_append, List.map_cons]
    exact .comma (hhint.shift delta) hcomma ih (mt List.map_eq_nil_iff.1 hne)

theorem SingleTable.shift {table : TableReference} (h : SingleTable ts table) :
    SingleTable (ts.map (·.shift delta)) (table.shift delta) := by
  obtain ⟨hname, hpartition, hnamed, hhints⟩ := h
  simp only [List.map_append]
  exact .mk (hname.shift delta) (hpartition.shift delta) (hnamed.shift delta) (hhints.shift delta)

theorem DerivedTable.shift (h : DerivedTable ts) : DerivedTable (ts.map (·.shift delta)) := by
  cases h with
  | plain hquery hopens hnamed =>
    rw [List.map_append]
    exact .plain (hquery.shift delta) ((opensQuery_shift delta).2 hopens) (hnamed.shift delta)
  | lateral hword hquery hopens hnamed =>
    rw [List.map_cons, List.map_append]
    exact .lateral hword (hquery.shift delta) ((opensQuery_shift delta).2 hopens)
      (hnamed.shift delta)

theorem JoinWords.shift (h : JoinWords ts) : JoinWords (ts.map (·.shift delta)) := by
  induction h with
  | last ht => exact .last ht
  | more ht _ ih => exact .more ht ih

theorem JoinCondition.shift (h : JoinCondition ts) : JoinCondition (ts.map (·.shift delta)) := by
  cases h with
  | none => exact .none
  | columns hword hnames => exact .columns hword (hnames.shift delta)
  | expression hword hts => exact .expression hword (hts.shift delta)

/-- A part of a list, moved with its tables. -/
theorem Presents.shift {part : Part} {found : List Placed} (h : Presents part ts found) :
    Presents part (ts.map (·.shift delta)) (found.map (·.shift delta)) := by
  induction h with
  | dual ht => exact .dual ht
  | single h => exact .single (h.shift delta)
  | derived h => exact .derived (h.shift delta)
  | @group opening closing ts found hopen hclose hquery _ ih =>
    have hmoved : ¬ OpensQuery (opening.shift delta ::
        (ts.map (·.shift delta) ++ [closing.shift delta])) := by
      rw [← opensQuery_shift delta] at hquery
      simpa using hquery
    have hgroup : Presents .factor (opening.shift delta ::
        (ts.map (·.shift delta) ++ [closing.shift delta])) _ :=
      .group hopen hclose hmoved ih
    simpa [Function.comp_def, Placed.shift, Placed.enclosed] using hgroup
  | noJoins => exact .noJoins
  | join hwords _ hcondition _ ihts ihus =>
    simp only [List.map_append]
    exact .join (hwords.shift delta) ihts (hcondition.shift delta) ihus
  | reference _ _ ihts ihus =>
    simp only [List.map_append]
    exact .reference ihts ihus
  | last _ ih => exact .last ih
  | comma _ hcomma _ ihts ihus =>
    simp only [List.map_append, List.map_cons]
    exact .comma ihts hcomma ihus

theorem within_shift (room : Nat) (found : List Placed) :
    within room (found.map (·.shift delta)) = (within room found).map (·.shift delta) := by
  simp [within, List.filter_map, Function.comp_def, Placed.shift]

end Moving

/-! ## Lists in parentheses -/

/-- The columns that a join compares, if they are named. -/
inductive SharedColumns : List Token → Prop
  | none : SharedColumns []
  | columns {word : Token} {names : List Token} (hword : word.kind = .keyword .USING)
      (hnames : IsGroup names) : SharedColumns (word :: names)

/-- The tokens are a part of a list in which parentheses are nested no deeper than so: of single
tables, of queries that start with `SELECT` and have an alias, of lists in parentheses, and of joins
between these without `ON`. -/
inductive Listed : Part → (depth : Nat) → List Token → Prop
  | single {depth : Nat} {name named : List Token} {table : TableReference}
      {alias? : Option NameAt} (hname : NamePart name table) (hnamed : AliasPart named alias?) :
      Listed .factor depth (name ++ named)
  | query {depth : Nat} {opening word closing : Token} {inside named : List Token}
      {aliased : NameAt} (hopen : opening.kind = .symbol .openPar)
      (hword : word.kind = .keyword .SELECT) (hinside : Balanced noStop inside)
      (hclose : closing.kind = .symbol .closePar) (hnamed : AliasPart named (some aliased)) :
      Listed .factor depth (opening :: (word :: inside ++ [closing]) ++ named)
  | group {depth : Nat} {opening closing : Token} {ts : List Token}
      (hopen : opening.kind = .symbol .openPar) (hclose : closing.kind = .symbol .closePar)
      (hts : Listed .list depth ts) : Listed .factor (depth + 1) (opening :: (ts ++ [closing]))
  | noJoins {depth : Nat} : Listed .joins depth []
  | join {depth : Nat} {words ts columns us : List Token} (hwords : JoinWords words)
      (hts : Listed .factor depth ts) (hcolumns : SharedColumns columns)
      (hus : Listed .joins depth us) : Listed .joins depth (words ++ (ts ++ (columns ++ us)))
  | reference {depth : Nat} {ts us : List Token} (hts : Listed .factor depth ts)
      (hus : Listed .joins depth us) : Listed .reference depth (ts ++ us)
  | last {depth : Nat} {ts : List Token} (hts : Listed .reference depth ts) :
      Listed .list depth ts
  | comma {depth : Nat} {ts us : List Token} {comma : Token} (hts : Listed .reference depth ts)
      (hcomma : comma.kind = .symbol .comma) (hus : Listed .list depth us) :
      Listed .list depth (ts ++ comma :: us)

section Lists

variable {depth : Nat} {ts : List Token}

theorem Listed.reference_of_factor (h : Listed .factor depth ts) : Listed .reference depth ts := by
  have hreference := Listed.reference h .noJoins
  rwa [List.append_nil] at hreference

theorem SharedColumns.joinCondition (h : SharedColumns ts) : JoinCondition ts := by
  cases h with
  | none => exact .none
  | columns hword hnames => exact .columns hword hnames

/-- A list in parentheses that looks like a query is read as a derived table without an alias, in
which no table is found. -/
theorem presents_group {opening closing : Token} {found : List Placed}
    (hopen : opening.kind = .symbol .openPar) (hclose : closing.kind = .symbol .closePar)
    (hts : Presents .list ts found) :
    Presents .factor (opening :: (ts ++ [closing])) [] ∨
      Presents .factor (opening :: (ts ++ [closing])) (found.map Placed.enclosed) := by
  by_cases hopens : OpensQuery (opening :: (ts ++ [closing]))
  · have hquery := DerivedTable.plain (.mk hopen hclose hts.balanced) hopens .none
    rw [List.append_nil] at hquery
    exact .inl (.derived hquery)
  · exact .inr (.group hopen hclose hopens hts)

theorem Listed.presents {part : Part} (h : Listed part depth ts) :
    ∃ found, Presents part ts found ∧ ∀ p ∈ found, p.groups ≤ depth := by
  induction h with
  | single hname hnamed =>
    have hsingle := SingleTable.mk hname .none hnamed .none
    rw [List.append_nil] at hsingle
    exact ⟨_, .single hsingle, by simp⟩
  | query hopen hword hinside hclose hnamed =>
    have hgroup := IsGroup.mk hopen hclose (.cons_kind hword rfl hinside)
    have hquery := DerivedTable.plain hgroup
      (.behind hopen (.word (congrArg isQueryWord hword))) hnamed
    exact ⟨[], .derived hquery, by simp⟩
  | group hopen hclose _ ih =>
    obtain ⟨found, hts, hdepth⟩ := ih
    rcases presents_group hopen hclose hts with hgroup | hgroup
    · exact ⟨[], hgroup, by simp⟩
    · refine ⟨_, hgroup, fun p hp => ?_⟩
      obtain ⟨q, hq, rfl⟩ := List.mem_map.1 hp
      exact Nat.succ_le_succ (hdepth q hq)
  | noJoins => exact ⟨[], .noJoins, by simp⟩
  | join hwords _ hcolumns _ ihts ihus =>
    obtain ⟨found, hts, hdepth⟩ := ihts
    obtain ⟨more, hus, hdepth'⟩ := ihus
    exact ⟨_, .join hwords hts hcolumns.joinCondition hus,
      List.forall_mem_append.2 ⟨hdepth, hdepth'⟩⟩
  | reference _ _ ihts ihus =>
    obtain ⟨found, hts, hdepth⟩ := ihts
    obtain ⟨more, hus, hdepth'⟩ := ihus
    exact ⟨_, .reference hts hus, List.forall_mem_append.2 ⟨hdepth, hdepth'⟩⟩
  | last _ ih =>
    obtain ⟨found, hts, hdepth⟩ := ih
    exact ⟨found, .last hts, hdepth⟩
  | comma _ hcomma _ ihts ihus =>
    obtain ⟨found, hts, hdepth⟩ := ihts
    obtain ⟨more, hus, hdepth'⟩ := ihus
    exact ⟨_, .comma hts hcomma hus, List.forall_mem_append.2 ⟨hdepth, hdepth'⟩⟩

theorem Balanced.exists_not_open {stops : Terminal → Bool} (h : Balanced stops ts) (hne : ts ≠ []) :
    ∃ t ∈ ts, t.kind ≠ .symbol .openPar := by
  cases h with
  | nil => exact absurd rfl hne
  | plain ht => exact ⟨_, List.mem_cons_self, ne_of_holds ht rfl⟩
  | @group _ _ closing _ _ _ hclose => exact ⟨closing, by simp, by simp [hclose]⟩

/-- What is behind a list does not matter to whether a query starts in front of it. -/
theorem Presents.opensQuery_append {found : List Placed} (h : Presents .list ts found)
    (us : List Token) : OpensQuery (ts ++ us) ↔ OpensQuery ts := by
  have hne := ne_nil_of_headKind h.startsFactor_of_list rfl
  obtain ⟨t, ht, hword⟩ := h.balanced.exists_not_open hne
  rw [← startsQuery_append ⟨t, ht, hword⟩ us,
    ← startsQuery_append ⟨t, List.mem_append_left us ht, hword⟩ [], List.append_nil]

/-- The clause with a list in parentheses, against the one with the list alone: the tables are the
same, moved as the tokens are, unless a query starts behind the parentheses that the list starts
with. Then no table is found. -/
theorem tables_of_enclosed {start start' opening closing : Token} {rest rest' : List Token}
    (h : Listed .list depth ts) (hdepth : depth < maxNesting) (delta : Nat)
    (hstart : start.kind = .keyword .FROM) (hrest : EndsList rest)
    (hstart' : start'.kind = .keyword .FROM) (hopen : opening.kind = .symbol .openPar)
    (hclose : closing.kind = .symbol .closePar) (hrest' : EndsList rest') :
    let enclosed := start' :: opening :: (ts.map (·.shift delta) ++ closing :: rest')
    (¬ OpensQuery ts →
      tables enclosed = (tables (start :: (ts ++ rest))).map (·.shift delta)) ∧
    (OpensQuery ts → tables enclosed = []) := by
  intro enclosed
  obtain ⟨found, hts, hfound⟩ := h.presents
  have hmoved := hts.shift delta
  have hopens : OpensQuery (opening :: (ts.map (·.shift delta) ++ [closing])) ↔ OpensQuery ts := by
    rw [opensQuery_open hopen, hmoved.opensQuery_append, opensQuery_shift]
  have henclosed : enclosed =
      start' :: (opening :: (ts.map (·.shift delta) ++ [closing]) ++ rest') := by
    simp [enclosed]
  rw [henclosed]
  constructor
  · intro hlist
    have hgroup := Presents.group hopen hclose (mt hopens.1 hlist) hmoved
    have hbare := (tables_of_presents hstart hts hrest).2 fun p hp => by
      have := hfound p hp
      omega
    have hreach : ∀ p ∈ (found.map (·.shift delta)).map Placed.enclosed, p.groups ≤ maxNesting := by
      intro p hp
      simp only [List.map_map, List.mem_map] at hp
      obtain ⟨q, hq, rfl⟩ := hp
      have := hfound q hq
      simp only [Function.comp_apply, Placed.enclosed, Placed.shift]
      omega
    rw [(tables_of_presents hstart' hgroup.list_of_factor hrest').2 hreach, hbare]
    simp [Function.comp_def, Placed.enclosed, Placed.shift]
  · intro hquery
    have hderived := DerivedTable.plain (.mk hopen hclose hmoved.balanced) (hopens.2 hquery) .none
    rw [List.append_nil] at hderived
    exact (tables_of_presents hstart' (Presents.derived hderived).list_of_factor hrest').1

end Lists

/-- The list `t JOIN (u) USING (k)` from place 5 on. -/
def joinedGroup : List Token :=
  [writtenAt 5 (.symbol .identifier) "t"] ++ ([writtenAt 7 (.keyword .JOIN) "JOIN"] ++
    ((writtenAt 12 (.symbol .openPar) "(" :: ([writtenAt 13 (.symbol .identifier) "u"] ++
      [writtenAt 14 (.symbol .closePar) ")"])) ++
    ((writtenAt 16 (.keyword .USING) "USING" :: writtenAt 22 (.symbol .openPar) "(" ::
      ([writtenAt 23 (.symbol .identifier) "k"] ++ [writtenAt 24 (.symbol .closePar) ")"])) ++ [])))

theorem tables_of_enclosed_joinedGroup :
    let start := fromWord
    let enclosed := start :: writtenAt 5 (.symbol .openPar) "(" ::
      (joinedGroup.map (·.shift 1) ++ [writtenAt 26 (.symbol .closePar) ")"])
    Listed .list 1 joinedGroup ∧ ¬ OpensQuery joinedGroup ∧
      tables enclosed = (tables (start :: joinedGroup)).map (·.shift 1) := by
  intro start enclosed
  have hname : ∀ depth place text,
      Listed .factor depth [writtenAt place (.symbol .identifier) text] :=
    fun depth place text => .single (.bare rfl) .none
  have hgroup : Listed .factor 1 (joinedGroup.extract 2 5) :=
    .group rfl rfl (.last (hname 0 13 "u").reference_of_factor)
  have hlist : Listed .list 1 joinedGroup :=
    .last (.reference (hname 1 5 "t") (.join (.last (.inl rfl)) hgroup
      (.columns rfl (.mk rfl rfl (.plain rfl rfl .nil))) .noJoins))
  have hopens : ¬ OpensQuery joinedGroup := by
    rw [joinedGroup, List.singleton_append, opensQuery_word (by decide)]
    decide
  have htables := (@tables_of_enclosed 1 joinedGroup start start
    (writtenAt 5 (.symbol .openPar) "(") (writtenAt 26 (.symbol .closePar) ")") [] []
    hlist (by decide) 1 rfl endsList_nil rfl rfl rfl endsList_nil).1 hopens
  rw [List.append_nil] at htables
  exact ⟨hlist, hopens, htables⟩

/-- The list `(SELECT 1) AS d, t` from place 5 on. -/
def queryFirst : List Token :=
  writtenAt 5 (.symbol .openPar) "(" ::
    (writtenAt 6 (.keyword .SELECT) "SELECT" :: [writtenAt 13 (.symbol .intNumber) "1"] ++
      [writtenAt 14 (.symbol .closePar) ")"]) ++
    [writtenAt 16 (.keyword .AS) "AS", writtenAt 19 (.symbol .identifier) "d"] ++
  writtenAt 20 (.symbol .comma) "," :: [writtenAt 22 (.symbol .identifier) "t"]

/-- A list that starts with a query: in parentheses, its table is lost. -/
theorem tables_of_enclosed_queryFirst :
    Listed .list 0 queryFirst ∧
      tables (fromWord :: queryFirst) =
        [.ofTable ⟨"t", ⟨22, 23⟩⟩ none] ∧
      tables (fromWord :: writtenAt 5 (.symbol .openPar) "(" ::
        (queryFirst.map (·.shift 1) ++ [writtenAt 24 (.symbol .closePar) ")"])) = [] := by
  have hnamed : AliasPart (queryFirst.extract 4 6) _ := .marked rfl rfl
  have hquery : Listed .factor 0 (queryFirst.take 6) :=
    .query rfl rfl (.plain rfl rfl .nil) rfl hnamed
  have hlist : Listed .list 0 queryFirst :=
    .comma hquery.reference_of_factor rfl
      (.last (Listed.single (.bare rfl) .none).reference_of_factor)
  exact ⟨hlist, by decide +kernel, by decide +kernel⟩

/-! ## Outer joins in braces -/

/-- Joins behind a table. The flag tells whether the last one has an expression as its condition. -/
inductive JoinChain : (expressed : Bool) → List Token → List Placed → Prop
  | none : JoinChain false [] []
  | last {words ts columns : List Token} {found : List Placed} (hwords : JoinWords words)
      (hts : Presents .factor ts found) (hcolumns : SharedColumns columns) :
      JoinChain false (words ++ (ts ++ columns)) found
  | lastOn {words ts condition : List Token} {mark : Token} {found : List Placed}
      (hwords : JoinWords words) (hts : Presents .factor ts found)
      (hmark : mark.kind = .keyword .ON) (hcondition : Balanced endsFactor condition) :
      JoinChain true (words ++ (ts ++ mark :: condition)) found
  | more {expressed : Bool} {words ts condition us : List Token} {found more : List Placed}
      (hwords : JoinWords words) (hts : Presents .factor ts found)
      (hcondition : JoinCondition condition) (hne : us ≠ []) (hus : JoinChain expressed us more) :
      JoinChain expressed (words ++ (ts ++ (condition ++ us))) (found ++ more)

section Braces

variable {expressed : Bool} {us : List Token} {found : List Placed}

theorem JoinChain.presents (h : JoinChain expressed us found) : Presents .joins us found := by
  induction h with
  | none => exact .noJoins
  | last hwords hts hcolumns =>
    simpa using Presents.join hwords hts hcolumns.joinCondition .noJoins
  | lastOn hwords hts hmark hcondition =>
    simpa using Presents.join hwords hts (.expression hmark hcondition) .noJoins
  | more hwords hts hcondition _ _ ih => exact .join hwords hts hcondition ih

theorem SharedColumns.shift {ts : List Token} (h : SharedColumns ts) (delta : Nat) :
    SharedColumns (ts.map (·.shift delta)) := by
  cases h with
  | none => exact .none
  | columns hword hnames => exact .columns hword (hnames.shift delta)

theorem JoinChain.shift (h : JoinChain expressed us found) (delta : Nat) :
    JoinChain expressed (us.map (·.shift delta)) (found.map (·.shift delta)) := by
  induction h with
  | none => exact .none
  | last hwords hts hcolumns =>
    simp only [List.map_append]
    exact .last (hwords.shift delta) (hts.shift delta) (hcolumns.shift delta)
  | lastOn hwords hts hmark hcondition =>
    simp only [List.map_append, List.map_cons]
    exact .lastOn (hwords.shift delta) (hts.shift delta) hmark (hcondition.shift delta)
  | more hwords hts hcondition hne _ ih =>
    simp only [List.map_append]
    exact .more (hwords.shift delta) (hts.shift delta) (hcondition.shift delta)
      (mt List.map_eq_nil_iff.1 hne) ih

variable {bound room fuel : Nat} {closing comma : Token} {ts more : List Token}

/-- A closing brace ends a table and starts no join. -/
theorem endsTable_brace (hclosing : closing.kind = .symbol .closeCurly) (rest : List Token) :
    EndsTable (closing :: rest) ∧ isJoinWord (headKind (closing :: rest)) = false :=
  ⟨endsTable_cons hclosing rfl (by decide) rest, congrArg isJoinWord hclosing⟩

theorem SharedColumns.endsTable_append (h : SharedColumns ts)
    (hclosing : closing.kind = .symbol .closeCurly) (rest : List Token) :
    EndsTable (ts ++ closing :: rest) := by
  cases h with
  | none => exact (endsTable_brace hclosing rest).1
  | columns hword => exact endsTable_cons hword rfl (by decide) _

theorem SharedColumns.passJoinCondition_append (h : SharedColumns ts)
    (hclosing : closing.kind = .symbol .closeCurly) (rest : List Token) :
    passJoinCondition (ts ++ closing :: rest) = closing :: rest := by
  cases h with
  | none =>
    exact passJoinCondition_of_not (by simp [headKind, hclosing]) (by simp [headKind, hclosing])
  | columns hword hnames => simp [passJoinCondition, hword, passParenthesized_append hnames]

/-- A condition goes on behind a closing brace. -/
theorem passCondition_brace (h : Balanced endsFactor ts)
    (hclosing : closing.kind = .symbol .closeCurly) (hcomma : comma.kind = .symbol .comma)
    (more : List Token) :
    passCondition 0 (ts ++ closing :: comma :: more) = comma :: more := by
  have hbrace : passCondition 0 (closing :: comma :: more) = passCondition 0 (comma :: more) := by
    simp [passCondition, hclosing, isJoinWord, isClauseEnd]
  rw [passCondition_append h fun _ => rfl, hbrace]
  exact passCondition_zero (congrArg endsFactor hcomma)

/-- Joins in braces are read up to the closing brace, or behind it if the last one has an expression
as its condition. -/
theorem JoinChain.joins_brace (h : JoinChain expressed us found) (hbound : us.length ≤ bound)
    (hfuel : us.length ≤ fuel) (hclosing : closing.kind = .symbol .closeCurly)
    (hcomma : comma.kind = .symbol .comma) (more : List Token) :
    joins bound (inside? bound room) fuel (us ++ closing :: comma :: more) =
      ⟨within room found, if expressed then comma :: more else closing :: comma :: more⟩ := by
  obtain ⟨hbrace, hbraceJoin⟩ := endsTable_brace hclosing (comma :: more)
  induction h generalizing fuel with
  | none => exact joins_of_not hbraceJoin fuel
  | @last words ts columns found hwords hts hcolumns =>
    simp only [List.length_append] at hbound hfuel
    obtain ⟨left, -, hread⟩ := joins_append bound (inside? bound room) hwords
      (show words.length ≤ fuel by omega) (ts ++ (columns ++ closing :: comma :: more))
    have hfactor : factor bound (inside? bound room) (ts ++ (columns ++ closing :: comma :: more)) =
        ⟨within room found, _⟩ :=
      factor_of_presents hts (by omega) (hcolumns.endsTable_append hclosing _)
    simp only [List.append_assoc, hread, joined, hfactor,
      hcolumns.passJoinCondition_append hclosing, joins_of_not hbraceJoin, List.append_nil]
    rfl
  | @lastOn words ts condition mark found hwords hts hmark hcondition =>
    simp only [List.length_append, List.length_cons] at hbound hfuel
    obtain ⟨left, -, hread⟩ := joins_append bound (inside? bound room) hwords
      (show words.length ≤ fuel by omega) (ts ++ mark :: (condition ++ closing :: comma :: more))
    have hfactor : factor bound (inside? bound room)
        (ts ++ mark :: (condition ++ closing :: comma :: more)) = ⟨within room found, _⟩ :=
      factor_of_presents hts (by omega) (endsTable_cons hmark rfl (by decide) _)
    have hpass : passJoinCondition (mark :: (condition ++ closing :: comma :: more)) =
        comma :: more := by
      rw [passJoinCondition, if_pos hmark]
      exact passCondition_brace hcondition hclosing hcomma more
    have hcommaJoin : isJoinWord (headKind (comma :: more)) = false := congrArg isJoinWord hcomma
    simp only [List.append_assoc, List.cons_append, hread, joined, hfactor, hpass,
      joins_of_not hcommaJoin, List.append_nil, if_true]
  | @more expressed words ts condition us found found' hwords hts hcondition hne hus ih =>
    simp only [List.length_append] at hbound hfuel
    obtain ⟨left, hleft, hread⟩ := joins_append bound (inside? bound room) hwords
      (show words.length ≤ fuel by omega) (ts ++ (condition ++ (us ++ closing :: comma :: more)))
    have hword := hus.presents.isJoinWord_of_joins.resolve_left hne
    have hends : EndsJoin (us ++ closing :: comma :: more) :=
      endsJoin_of_isJoinWord (headKind_append hword rfl _)
    have hfactor : factor bound (inside? bound room)
        (ts ++ (condition ++ (us ++ closing :: comma :: more))) = ⟨within room found, _⟩ :=
      factor_of_presents hts (by omega) (hcondition.endsFactor hends).endsTable
    have hmore := @ih left (by omega) (by omega)
    simp only [List.append_assoc, hread, joined, hfactor, passJoinCondition_append hcondition hends,
      hmore, within_append]

/-- Without a closing brace, everything is passed over. -/
theorem passGroup_of_unclosed (h : ∀ t ∈ ts, t.kind ≠ .symbol .closeCurly) (depth : Nat) :
    headKind (passGroup .openCurly .closeCurly depth ts) = .eof := by
  induction ts generalizing depth with
  | nil => rfl
  | cons t ts ih =>
    rw [List.forall_mem_cons] at h
    by_cases heof : t.kind = .eof
    · simp only [passGroup, heof, if_true, headKind]
    by_cases hopen : t.kind = .symbol .openCurly
    · simp only [passGroup, hopen, reduceCtorEq, Terminal.symbol.injEq, if_true, if_false]
      exact ih h.2 _
    · simp only [passGroup, heof, hopen, h.1, if_false]
      exact ih h.2 _

end Braces

/-- A clause with an outer join in braces and a table `c` behind a comma, but for the join. -/
structure BraceClause extends ClauseFrame where
  opening : Token
  mark : Token
  closing : Token
  comma : Token
  hopening : opening.kind = .symbol .openCurly
  hmark : isOuterJoinMark mark = true
  hclosing : closing.kind = .symbol .closeCurly
  hcomma : comma.kind = .symbol .comma

theorem NamePart.kind_ne_closeCurly {ts : List Token} {table : TableReference}
    (h : NamePart ts table) : ∀ t ∈ ts, t.kind ≠ .symbol .closeCurly := by
  have hname : ∀ t : Token, t.kind.isNameLike = true → t.kind ≠ .symbol .closeCurly :=
    fun t ht => ne_of_holds ht rfl
  cases h with
  | bare htable => simpa using hname _ htable
  | inSchema hschema hpoint htable =>
    simpa [hpoint] using ⟨hname _ hschema, hname _ htable⟩

namespace BraceClause

variable (b : BraceClause) {expressed : Bool} {first us : List Token} {table : TableReference}
  {found : List Placed}

/-- The clause with a reference in its place. -/
def tokens (reference : List Token) : List Token :=
  b.start :: b.opening :: b.mark :: (reference ++ b.closing :: b.comma :: (b.last ++ b.rest))

/-- The braces with a reference in them are read as a reference. -/
theorem reference_of_braces {bound : Nat} (room : Nat) (hfirst : SingleTable first table)
    (hus : JoinChain expressed us found) (hbound : first.length + us.length ≤ bound)
    (more : List Token) :
    reference bound (inside? bound (room + 1)) (b.opening :: b.mark ::
      (first ++ (us ++ b.closing :: b.comma :: more))) =
        ⟨table :: within room found, passGroup .openCurly .closeCurly 0
          (if expressed then b.comma :: more else b.closing :: b.comma :: more)⟩ := by
  obtain ⟨hbrace, -⟩ := endsTable_brace b.hclosing (b.comma :: more)
  have hends : EndsTable (us ++ b.closing :: b.comma :: more) := by
    rcases hus.presents.isJoinWord_of_joins with rfl | hword
    · exact hbrace
    · exact (endsJoin_of_isJoinWord (headKind_append hword rfl _)).toEndsFactor.endsTable
  have hfactor : factor bound (inside? bound room)
      (first ++ (us ++ b.closing :: b.comma :: more)) = ⟨[table], _⟩ :=
    factor_of_singleTable hfirst (by omega) hends
  have hjoins : joins bound (inside? bound room) bound
      (us ++ b.closing :: b.comma :: more) = _ :=
    hus.joins_brace (by omega) (by omega) b.hclosing b.hcomma more
  have hstarts := headKind_append (Presents.single hfirst).startsFactor_of_factor rfl
    (us ++ b.closing :: b.comma :: more)
  have hinside : reference bound (inside? bound room)
      (first ++ (us ++ b.closing :: b.comma :: more)) = _ :=
    reference_of_factor hstarts hfactor
  rw [hjoins] at hinside
  have hbraces : reference bound (inside? bound (room + 1)) (b.opening :: b.mark ::
      (first ++ (us ++ b.closing :: b.comma :: more))) = braces (inside? bound (room + 1))
        (b.mark :: (first ++ (us ++ b.closing :: b.comma :: more))) := if_pos b.hopening
  rw [hbraces]
  simp only [inside?, braces, passOuterJoinMark, b.hmark, if_true, hinside, List.singleton_append]

/-- What is found in the clause: the tables of the reference that are not nested too deep, and the
table behind the braces, unless the last join has an expression as its condition. -/
theorem tables_of_chain (hfirst : SingleTable first table) (hus : JoinChain expressed us found)
    (hunclosed : expressed = true → ∀ t ∈ b.rest, t.kind ≠ .symbol .closeCurly) :
    tables (b.tokens (first ++ us)) =
      table :: within (maxNesting - 1) found ++ if expressed then [] else [b.c] := by
  let clause := b.opening :: b.mark ::
    (first ++ (us ++ b.closing :: b.comma :: (b.last ++ b.rest)))
  have htokens : b.tokens (first ++ us) = b.start :: clause := by simp [tokens, clause]
  have hlength : clause.length =
      first.length + us.length + b.last.length + b.rest.length + 4 := by
    simp [clause]
    omega
  have hread : reference (clause.length + 1) (inside? (clause.length + 1) maxNesting) clause = _ :=
    b.reference_of_braces (maxNesting - 1) hfirst hus (by omega) (b.last ++ b.rest)
  rw [htokens, tables_cons b.hstart]
  cases expressed with
  | true =>
    have hrest : ∀ t ∈ b.comma :: (b.last ++ b.rest), t.kind ≠ .symbol .closeCurly := by
      rw [List.forall_mem_cons, List.forall_mem_append]
      exact ⟨by simp [b.hcomma], b.hc.kind_ne_closeCurly, hunclosed rfl⟩
    have hend : isClauseEnd (headKind (passGroup .openCurly .closeCurly 0
        (b.comma :: (b.last ++ b.rest)))) = true := by
      rw [passGroup_of_unclosed hrest]
      rfl
    rw [list_of_last hread hend]
    simp
  | false =>
    have hpass : passGroup .openCurly .closeCurly 0
        (b.closing :: b.comma :: (b.last ++ b.rest)) = b.comma :: (b.last ++ b.rest) := by
      simp [passGroup, b.hclosing]
    simp only [Bool.false_eq_true, if_false, hpass] at hread ⊢
    rw [list_of_comma hread b.hcomma, list_of_name b.hc (by omega) (by omega) b.hrest]

end BraceClause

/-- The clause with a reference in braces, against the one with the reference alone. As long as the
last join has no expression as its condition, the tables are the same, moved as the tokens are, and
the table behind the braces is found. Where it has one, that table is lost: the condition goes on
behind the closing brace, and everything is passed over in search of another one. The braces take
the room of one list in parentheses. -/
theorem tables_of_braced (b : BraceClause) {expressed : Bool} {start : Token}
    {first us rest : List Token} {table : TableReference} {found : List Placed}
    (hfirst : SingleTable first table) (hus : JoinChain expressed us found) (delta : Nat)
    (hunclosed : expressed = true → ∀ t ∈ b.rest, t.kind ≠ .symbol .closeCurly)
    (hstart : start.kind = .keyword .FROM) (hrest : EndsList rest) :
    let braced := tables (b.tokens ((first ++ us).map (·.shift delta)))
    let behind := if expressed then [] else [b.c]
    braced = (within (maxNesting - 1) (⟨table, 0⟩ :: found)).map (·.shift delta) ++ behind ∧
      ((∀ p ∈ found, p.groups < maxNesting) →
        braced = (tables (start :: (first ++ us ++ rest))).map (·.shift delta) ++ behind) := by
  intro braced behind
  have hbraced : braced =
      (within (maxNesting - 1) (⟨table, 0⟩ :: found)).map (·.shift delta) ++ behind := by
    have hchain := b.tables_of_chain (hfirst.shift delta) (hus.shift delta) hunclosed
    rw [within_shift, ← List.map_append] at hchain
    exact hchain
  refine ⟨hbraced, fun hreach => ?_⟩
  have hlist : Presents .list (first ++ us) (⟨table, 0⟩ :: found) :=
    .last (.reference (.single hfirst) hus.presents)
  have halone := (tables_of_presents hstart hlist hrest).2 fun p hp => by
    rcases List.mem_cons.1 hp with rfl | hp
    · exact Nat.zero_le _
    · exact Nat.le_of_lt (hreach p hp)
  have hwithin : within (maxNesting - 1) (⟨table, 0⟩ :: found) =
      (⟨table, 0⟩ :: found : List Placed).map Placed.table := by
    refine within_of_forall fun p hp => ?_
    rcases List.mem_cons.1 hp with rfl | hp
    · exact Nat.zero_le _
    · exact Nat.le_sub_one_of_lt (hreach p hp)
  rw [hbraced, halone, hwithin]

/-- The clause with a reference from place 10 up to that place, and with `, c` behind it. -/
def braceClause (place : Nat) : BraceClause where
  start := fromWord
  opening := writtenAt 5 (.symbol .openCurly) "\x7b"
  mark := writtenAt 7 (.symbol .identifier) "OJ"
  closing := writtenAt place (.symbol .closeCurly) "\x7d"
  comma := writtenAt (place + 1) (.symbol .comma) ","
  last := [writtenAt (place + 3) (.symbol .identifier) "c"]
  rest := []
  c := .ofTable (nameOf (writtenAt (place + 3) (.symbol .identifier) "c")) none
  hstart := kind_fromWord
  hopening := rfl
  hmark := by decide +kernel
  hclosing := rfl
  hcomma := rfl
  hc := .bare rfl
  hrest := endsList_nil

/-- The join `LEFT JOIN b ON x` from place 7 on. -/
def conditionalJoin : List Token :=
  [writtenAt 7 (.keyword .LEFT) "LEFT", writtenAt 12 (.keyword .JOIN) "JOIN"] ++
    ([writtenAt 17 (.symbol .identifier) "b"] ++ writtenAt 19 (.keyword .ON) "ON" ::
      [writtenAt 22 (.symbol .identifier) "x"])

/-- The join `JOIN d USING (k)` from place 24 on. -/
def columnJoin : List Token :=
  [writtenAt 24 (.keyword .JOIN) "JOIN"] ++ ([writtenAt 29 (.symbol .identifier) "d"] ++
    writtenAt 31 (.keyword .USING) "USING" :: writtenAt 37 (.symbol .openPar) "(" ::
      ([writtenAt 38 (.symbol .identifier) "k"] ++ [writtenAt 39 (.symbol .closePar) ")"]))

theorem tables_of_braced_columnJoin :
    let start := fromWord
    let first := [firstName]
    let us := conditionalJoin ++ columnJoin
    let found : List Placed :=
      [⟨.ofTable ⟨"b", ⟨17, 18⟩⟩ none, 0⟩, ⟨.ofTable ⟨"d", ⟨29, 30⟩⟩ none, 0⟩]
    SingleTable first (.ofTable ⟨"a", ⟨5, 6⟩⟩ none) ∧ JoinChain false us found ∧
      tables ((braceClause 45).tokens ((first ++ us).map (·.shift 5))) =
        (tables (start :: (first ++ us))).map (·.shift 5) ++ [(braceClause 45).c] := by
  intro start first us found
  have hfirst : SingleTable first (.ofTable ⟨"a", ⟨5, 6⟩⟩ none) := (NamePart.bare rfl).singleTable
  have hlast : JoinChain false columnJoin [⟨.ofTable ⟨"d", ⟨29, 30⟩⟩ none, 0⟩] :=
    .last (.last (.inl rfl)) (presents_name rfl) (.columns rfl (.mk rfl rfl (.plain rfl rfl .nil)))
  have hus : JoinChain false us found :=
    .more (.more rfl (.last (.inl rfl))) (presents_name rfl)
      (.expression rfl (.plain rfl rfl .nil)) (List.cons_ne_nil _ _) hlast
  have htables := (@tables_of_braced (braceClause 45) false start first us [] _ _ hfirst hus 5
    (fun h => nomatch h) rfl endsList_nil).2 (by decide)
  rw [List.append_nil] at htables
  exact ⟨hfirst, hus, htables⟩

/-- A last join with an expression as its condition: the table `c` behind the braces is lost. -/
theorem tables_of_braced_conditionalJoin :
    let first := [firstName]
    JoinChain true conditionalJoin [⟨.ofTable ⟨"b", ⟨17, 18⟩⟩ none, 0⟩] ∧
      tables (fromWord :: (first ++ conditionalJoin)) =
        [.ofTable ⟨"a", ⟨5, 6⟩⟩ none, .ofTable ⟨"b", ⟨17, 18⟩⟩ none] ∧
      tables ((braceClause 29).tokens ((first ++ conditionalJoin).map (·.shift 5))) =
        [.ofTable ⟨"a", ⟨10, 11⟩⟩ none, .ofTable ⟨"b", ⟨22, 23⟩⟩ none] := by
  intro first
  refine ⟨?_, by decide +kernel, by decide +kernel⟩
  exact .lastOn (.more rfl (.last (.inl rfl))) (presents_name rfl) rfl (.plain rfl rfl .nil)

end SqlCompletion.FromClause
