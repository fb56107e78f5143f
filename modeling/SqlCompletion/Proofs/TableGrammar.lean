import Mathlib.Data.List.Basic
import SqlCompletion.Table.FromClause
set_option autoImplicit false

/-!
# The grammar of a `FROM` clause

`Presents` says that some tokens are well-formed as a part of a list of tables, and which tables are
in it, each with the number of lists in parentheses that it stands in (`Placed`). It is written as a
grammar is written, with a constructor for each form that a part may have, and it does not mention
the readers. That the readers find these tables is shown elsewhere.

The parts that hold no tables come first: balanced tokens (`Balanced`), queries in parentheses
(`OpensQuery`), names, partitions, aliases, index hints, the words of joins and their conditions. A
condition may be any balanced tokens that end no factor outside of parentheses, so it is not looked
into.

What is proved here is what is needed at the borders of parts.

* A part starts with one of a few kinds of tokens (`startsFactor_of_factor`, `startsFactor_of_list`,
  `isJoinWord_of_joins`), and these are none of those that could go on with what stands in front of
  it.
* A part is balanced, and nothing that stops a condition stands in it outside of parentheses
  (`Presents.balanced`), so that every part can stand in parentheses.

The grammar here is of tokens and not of texts, and it is the usual form of a clause that it
describes: a derived table has no list of columns here, and an outer join in braces is left out.
Modules on these say what is read of them.
-/

namespace SqlCompletion.FromClause

/-! ## Balanced tokens -/

/-- A terminal that neither is a parenthesis nor ends the text. -/
def isPlain : Terminal → Bool
  | .symbol .openPar | .symbol .closePar | .symbol .eof => false
  | _ => true

/-- Inside parentheses no token is a stop. -/
abbrev noStop : Terminal → Bool := fun _ => false

/-- The parentheses among the tokens close one another, the text does not end there, and the
tokens outside of all parentheses are no stops. -/
inductive Balanced : (stops : Terminal → Bool) → List Token → Prop
  | nil {stops : Terminal → Bool} : Balanced stops []
  | plain {stops : Terminal → Bool} {t : Token} {ts : List Token}
      (ht : isPlain t.kind = true) (hstop : stops t.kind = false) (hrest : Balanced stops ts) :
      Balanced stops (t :: ts)
  | group {stops : Terminal → Bool} {opening closing : Token} {inside ts : List Token}
      (hopen : opening.kind = .symbol .openPar) (hclose : closing.kind = .symbol .closePar)
      (hinside : Balanced noStop inside) (hrest : Balanced stops ts) :
      Balanced stops (opening :: (inside ++ closing :: ts))

namespace Balanced

variable {stops : Terminal → Bool} {ts us : List Token}

theorem append (hts : Balanced stops ts) (hus : Balanced stops us) : Balanced stops (ts ++ us) := by
  induction hts with
  | nil => exact hus
  | plain ht hstop _ ih => exact .plain ht hstop (ih hus)
  | group hopen hclose hinside _ _ ih =>
    rw [List.cons_append, List.append_assoc, List.cons_append]
    exact .group hopen hclose hinside (ih hus)

/-- What stops outside of parentheses does not matter inside of them. -/
theorem anywhere (h : Balanced stops ts) : Balanced noStop ts := by
  induction h with
  | nil => exact .nil
  | plain ht _ _ ih => exact .plain ht rfl ih
  | group hopen hclose hinside _ _ ih => exact .group hopen hclose hinside ih

end Balanced

/-- A group in parentheses. -/
inductive IsGroup : List Token → Prop
  | mk {opening closing : Token} {inside : List Token}
      (hopen : opening.kind = .symbol .openPar) (hclose : closing.kind = .symbol .closePar)
      (hinside : Balanced noStop inside) : IsGroup (opening :: (inside ++ [closing]))

theorem IsGroup.balanced {ts : List Token} (h : IsGroup ts) : Balanced noStop ts := by
  obtain ⟨hopen, hclose, hinside⟩ := h
  exact .group hopen hclose hinside .nil

/-! ## Queries -/

/-- A word that a query starts with. -/
def isQueryWord : Terminal → Bool
  | .keyword .SELECT | .keyword .WITH | .keyword .VALUES | .keyword .TABLE => true
  | _ => false

/-- Behind the opening parentheses that the tokens start with, a query starts. -/
inductive OpensQuery : List Token → Prop
  | word {t : Token} {ts : List Token} (h : isQueryWord t.kind = true) : OpensQuery (t :: ts)
  | behind {t : Token} {ts : List Token} (hopen : t.kind = .symbol .openPar)
      (h : OpensQuery ts) : OpensQuery (t :: ts)

theorem opensQuery_open {t : Token} {ts : List Token} (hopen : t.kind = .symbol .openPar) :
    OpensQuery (t :: ts) ↔ OpensQuery ts := by
  refine ⟨fun h => ?_, .behind hopen⟩
  cases h with
  | word h =>
    rw [hopen] at h
    cases h
  | behind _ h => exact h

theorem opensQuery_word {t : Token} {ts : List Token} (hopen : t.kind ≠ .symbol .openPar) :
    OpensQuery (t :: ts) ↔ isQueryWord t.kind = true := by
  refine ⟨fun h => ?_, .word⟩
  cases h with
  | word h => exact h
  | behind h => exact absurd h hopen

/-! ## Single tables -/

/-- The name of a table, with or without its schema in front. -/
inductive NamePart : List Token → TableReference → Prop
  | bare {table : Token} (htable : table.kind.isNameLike = true) :
      NamePart [table] (.ofTable (nameOf table) none)
  | inSchema {schema point table : Token} (hschema : schema.kind.isNameLike = true)
      (hpoint : point.kind = .symbol .dot) (htable : table.kind.isNameLike = true) :
      NamePart [schema, point, table] (.ofTable (nameOf table) (some (nameOf schema)))

/-- The partitions of a table, if any are named. -/
inductive PartitionPart : List Token → Prop
  | none : PartitionPart []
  | named {word : Token} {names : List Token} (hword : word.kind = .keyword .PARTITION)
      (hnames : IsGroup names) : PartitionPart (word :: names)

/-- An alias, with or without `AS` in front, or none. A string needs the `AS`. -/
inductive AliasPart : List Token → Option NameAt → Prop
  | none : AliasPart [] none
  | bare {t : Token} (ht : t.kind.isNameLike = true) :
      AliasPart [t] (some ⟨Name.ofAliasText t.text, t.span⟩)
  | marked {mark t : Token} (hmark : mark.kind = .keyword .AS) (ht : isAlias true t.kind = true) :
      AliasPart [mark, t] (some ⟨Name.ofAliasText t.text, t.span⟩)

/-- The part of a query that an index hint is for, if one is named. -/
inductive HintScope : List Token → Prop
  | everything : HintScope []
  | join {mark word : Token} (hmark : mark.kind = .keyword .FOR)
      (hword : word.kind = .keyword .JOIN) : HintScope [mark, word]
  | sorting {mark word last : Token} (hmark : mark.kind = .keyword .FOR)
      (hword : word.kind = .keyword .ORDER ∨ word.kind = .keyword .GROUP)
      (hlast : last.kind = .keyword .BY) : HintScope [mark, word, last]

/-- An index hint. -/
inductive Hint : List Token → Prop
  | mk {word index : Token} {scope names : List Token} (hword : isHintWord word.kind = true)
      (hindex : isIndexWord index.kind = true) (hscope : HintScope scope)
      (hnames : IsGroup names) : Hint (word :: index :: (scope ++ names))

/-- Index hints, with or without commas between them. -/
inductive Hints : List Token → Prop
  | none : Hints []
  | next {hint more : List Token} (hhint : Hint hint) (hmore : Hints more) : Hints (hint ++ more)
  | comma {hint more : List Token} {comma : Token} (hhint : Hint hint)
      (hcomma : comma.kind = .symbol .comma) (hmore : Hints more) (hne : more ≠ []) :
      Hints (hint ++ comma :: more)

/-- A single table. -/
inductive SingleTable : List Token → TableReference → Prop
  | mk {name partition named hints : List Token} {table : TableReference}
      {alias? : Option NameAt} (hname : NamePart name table) (hpartition : PartitionPart partition)
      (hnamed : AliasPart named alias?) (hhints : Hints hints) :
      SingleTable (name ++ (partition ++ (named ++ hints))) { table with alias? := alias? }

/-! ## Derived tables and joins -/

/-- A query in parentheses, with or without `LATERAL` in front and an alias behind. -/
inductive DerivedTable : List Token → Prop
  | plain {query named : List Token} {alias? : Option NameAt} (hquery : IsGroup query)
      (hopens : OpensQuery query) (hnamed : AliasPart named alias?) : DerivedTable (query ++ named)
  | lateral {word : Token} {query named : List Token} {alias? : Option NameAt}
      (hword : word.kind = .keyword .LATERAL) (hquery : IsGroup query)
      (hopens : OpensQuery query) (hnamed : AliasPart named alias?) :
      DerivedTable (word :: (query ++ named))

/-- The words that introduce a join, the last of which is `JOIN` or `STRAIGHT_JOIN`. -/
inductive JoinWords : List Token → Prop
  | last {t : Token} (ht : t.kind = .keyword .JOIN ∨ t.kind = .keyword .STRAIGHT_JOIN) :
      JoinWords [t]
  | more {t : Token} {ts : List Token} (ht : isJoinWord t.kind = true) (hts : JoinWords ts) :
      JoinWords (t :: ts)

/-- A terminal at which a factor, and the condition of a join, is over. -/
def endsFactor (kind : Terminal) : Bool :=
  kind == .symbol .comma || isJoinWord kind || isClauseEnd kind

/-- The condition of a join, if it has one. -/
inductive JoinCondition : List Token → Prop
  | none : JoinCondition []
  | columns {word : Token} {names : List Token} (hword : word.kind = .keyword .USING)
      (hnames : IsGroup names) : JoinCondition (word :: names)
  | expression {word : Token} {ts : List Token} (hword : word.kind = .keyword .ON)
      (hts : Balanced endsFactor ts) : JoinCondition (word :: ts)

/-! ## Lists of tables -/

/-- A table with the number of lists in parentheses that it stands in. -/
structure Placed where
  table : TableReference
  groups : Nat
  deriving DecidableEq, Repr

/-- The table with one more list in parentheses around it. -/
def Placed.enclosed (p : Placed) : Placed := { p with groups := p.groups + 1 }

/-- The parts that a list of tables is made of. -/
inductive Part where
  /-- A single table, a derived table, `DUAL` or a list in parentheses. -/
  | factor
  /-- The joins behind a factor. -/
  | joins
  /-- A factor with its joins. -/
  | reference
  /-- References between commas. -/
  | list

/-- The tokens are well-formed as a part of a list, and these are the tables in it, in their
order. -/
inductive Presents : Part → List Token → List Placed → Prop
  | dual {t : Token} (ht : t.kind = .keyword .DUAL) : Presents .factor [t] []
  | single {ts : List Token} {table : TableReference} (h : SingleTable ts table) :
      Presents .factor ts [⟨table, 0⟩]
  | derived {ts : List Token} (h : DerivedTable ts) : Presents .factor ts []
  | group {opening closing : Token} {ts : List Token} {found : List Placed}
      (hopen : opening.kind = .symbol .openPar) (hclose : closing.kind = .symbol .closePar)
      (hquery : ¬ OpensQuery (opening :: (ts ++ [closing]))) (hts : Presents .list ts found) :
      Presents .factor (opening :: (ts ++ [closing])) (found.map Placed.enclosed)
  | noJoins : Presents .joins [] []
  | join {words ts condition us : List Token} {found more : List Placed}
      (hwords : JoinWords words) (hts : Presents .factor ts found)
      (hcondition : JoinCondition condition) (hus : Presents .joins us more) :
      Presents .joins (words ++ (ts ++ (condition ++ us))) (found ++ more)
  | reference {ts us : List Token} {found more : List Placed} (hts : Presents .factor ts found)
      (hus : Presents .joins us more) : Presents .reference (ts ++ us) (found ++ more)
  | last {ts : List Token} {found : List Placed} (hts : Presents .reference ts found) :
      Presents .list ts found
  | comma {ts us : List Token} {comma : Token} {found more : List Placed}
      (hts : Presents .reference ts found) (hcomma : comma.kind = .symbol .comma)
      (hus : Presents .list us more) : Presents .list (ts ++ comma :: us) (found ++ more)

/-- A factor without joins is a list of its own. -/
theorem Presents.list_of_factor {ts : List Token} {found : List Placed}
    (h : Presents .factor ts found) : Presents .list ts found := by
  have hlist := Presents.last (.reference h .noJoins)
  rwa [List.append_nil, List.append_nil] at hlist

/-- A name alone is a single table. -/
theorem NamePart.singleTable {ts : List Token} {table : TableReference} (h : NamePart ts table) :
    SingleTable ts table := by
  have hsingle := SingleTable.mk h .none .none .none
  simp only [List.append_nil] at hsingle
  cases h with
  | bare => exact hsingle
  | inSchema => exact hsingle

theorem presents_name {t : Token} (h : t.kind.isNameLike = true) :
    Presents .factor [t] [⟨.ofTable (nameOf t) none, 0⟩] :=
  .single (NamePart.bare h).singleTable

/-! ## Kinds of words -/

section Kinds

variable {kind : Terminal} {p : Terminal → Bool}

theorem ne_of_holds {other : Terminal} (h : p kind = true) (hother : p other = false) :
    kind ≠ other := by
  rintro rfl
  rw [h] at hother
  cases hother

/-- What holds neither of a parenthesis nor of the end of the text holds of plain tokens only. -/
theorem isPlain_of_holds (h : p kind = true) (hopen : p (.symbol .openPar) = false)
    (hclose : p (.symbol .closePar) = false) (heof : p .eof = false) : isPlain kind = true := by
  unfold isPlain
  split
  · exact absurd rfl (ne_of_holds h hopen)
  · exact absurd rfl (ne_of_holds h hclose)
  · exact absurd rfl (ne_of_holds h heof)
  · rfl

theorem isAlias_false (kind : Terminal) : isAlias false kind = kind.isNameLike := by
  unfold isAlias
  split <;> rfl

theorem isNameLike_of_isHintWord (h : isHintWord kind = true) : kind.isNameLike = false := by
  unfold isHintWord at h
  split at h
  any_goals rfl
  cases h

theorem endsFactor_iff : endsFactor kind = true ↔
    kind = .symbol .comma ∨ isJoinWord kind = true ∨ isClauseEnd kind = true := by
  simp [endsFactor, or_assoc]

theorem endsFactor_of_isJoinWord (h : isJoinWord kind = true) : endsFactor kind = true :=
  endsFactor_iff.2 (.inr (.inl h))

theorem endsFactor_of_isClauseEnd (h : isClauseEnd kind = true) : endsFactor kind = true :=
  endsFactor_iff.2 (.inr (.inr h))

/-- What ends a factor is no name. -/
theorem isNameLike_of_endsFactor (h : endsFactor kind = true) : kind.isNameLike = false := by
  obtain rfl | hjoin | hend := endsFactor_iff.1 h
  · rfl
  · unfold isJoinWord at hjoin
    split at hjoin
    any_goals rfl
    cases hjoin
  · unfold isClauseEnd at hend
    split at hend
    any_goals rfl
    cases hend

theorem isHintWord_of_endsFactor (h : endsFactor kind = true) : isHintWord kind = false := by
  unfold isHintWord
  split
  any_goals rfl
  all_goals cases h

theorem isJoinWord_of_isClauseEnd (h : isClauseEnd kind = true) :
    isJoinWord kind = false := by
  unfold isJoinWord
  split
  any_goals rfl
  all_goals cases h

end Kinds

/-! ## What parts start with -/

/-- A terminal that a factor starts with. -/
def startsFactor (kind : Terminal) : Bool :=
  kind == .symbol .openPar || kind == .keyword .LATERAL || kind == .keyword .DUAL ||
    kind.isNameLike

theorem isHintWord_of_startsFactor {kind : Terminal} (h : startsFactor kind = true) :
    isHintWord kind = false := by
  unfold isHintWord
  split
  any_goals rfl
  all_goals cases h

/-- What holds of the start of some tokens and of the start of the rest. -/
theorem headKind_append_of {p : Terminal → Prop} {ts rest : List Token}
    (hts : ts = [] ∨ p (headKind ts)) (hrest : p (headKind rest)) : p (headKind (ts ++ rest)) := by
  cases ts with
  | nil => exact hrest
  | cons t ts => exact hts.resolve_left (List.cons_ne_nil t ts)

theorem ne_nil_of_headKind {p : Terminal → Bool} {ts : List Token} (h : p (headKind ts) = true)
    (heof : p .eof = false) : ts ≠ [] := by
  rintro rfl
  exact absurd rfl (ne_of_holds h heof)

theorem headKind_append {p : Terminal → Bool} {ts : List Token} (h : p (headKind ts) = true)
    (heof : p .eof = false) (rest : List Token) : p (headKind (ts ++ rest)) = true := by
  cases ts with
  | nil => exact absurd rfl (ne_nil_of_headKind h heof)
  | cons t ts => exact h

theorem PartitionPart.headKind_eq {ts : List Token} (h : PartitionPart ts) :
    ts = [] ∨ headKind ts = .keyword .PARTITION := by
  cases h with
  | none => exact .inl rfl
  | named hword => exact .inr hword

theorem AliasPart.headKind_eq {ts : List Token} {alias? : Option NameAt} (h : AliasPart ts alias?) :
    ts = [] ∨ headKind ts = .keyword .AS ∨ (headKind ts).isNameLike = true := by
  cases h with
  | none => exact .inl rfl
  | bare ht => exact .inr (.inr ht)
  | marked hmark => exact .inr (.inl hmark)

theorem Hint.isHintWord_headKind {ts : List Token} (h : Hint ts) :
    isHintWord (headKind ts) = true := by
  obtain ⟨hword⟩ := h
  exact hword

theorem Hint.ne_nil {ts : List Token} (h : Hint ts) : ts ≠ [] :=
  ne_nil_of_headKind h.isHintWord_headKind rfl

theorem Hints.isHintWord_headKind {ts : List Token} (h : Hints ts) :
    ts = [] ∨ isHintWord (headKind ts) = true := by
  cases h with
  | none => exact .inl rfl
  | next hhint => exact .inr (headKind_append hhint.isHintWord_headKind rfl _)
  | comma hhint => exact .inr (headKind_append hhint.isHintWord_headKind rfl _)

theorem JoinWords.isJoinWord_headKind {ts : List Token} (h : JoinWords ts) :
    isJoinWord (headKind ts) = true := by
  cases h with
  | last ht =>
    obtain ht | ht := ht
    · exact congrArg isJoinWord ht
    · exact congrArg isJoinWord ht
  | more ht => exact ht

namespace Presents

variable {ts : List Token} {found : List Placed}

theorem startsFactor_of_factor (h : Presents .factor ts found) :
    startsFactor (headKind ts) = true := by
  cases h with
  | dual ht => exact congrArg startsFactor ht
  | single h =>
    obtain ⟨hname⟩ := h
    cases hname with
    | bare htable => simp [startsFactor, headKind, htable]
    | inSchema hschema => simp [startsFactor, headKind, hschema]
  | derived h =>
    cases h with
    | plain hquery =>
      obtain ⟨hopen⟩ := hquery
      exact congrArg startsFactor hopen
    | lateral hword => exact congrArg startsFactor hword
  | group hopen => exact congrArg startsFactor hopen

/-- What a factor starts with, a reference can start with. -/
theorem startsReference (h : Presents .factor ts found) :
    FromClause.startsReference (headKind ts) = true := by
  have hstarts := h.startsFactor_of_factor
  simp only [startsFactor, Bool.or_eq_true] at hstarts
  simp only [FromClause.startsReference, Bool.or_eq_true]
  tauto

theorem startsFactor_of_reference (h : Presents .reference ts found) :
    startsFactor (headKind ts) = true := by
  cases h with
  | reference hts => exact headKind_append hts.startsFactor_of_factor rfl _

theorem startsFactor_of_list (h : Presents .list ts found) : startsFactor (headKind ts) = true := by
  cases h with
  | last hts => exact hts.startsFactor_of_reference
  | comma hts => exact headKind_append hts.startsFactor_of_reference rfl _

theorem isJoinWord_of_joins (h : Presents .joins ts found) :
    ts = [] ∨ isJoinWord (headKind ts) = true := by
  cases h with
  | noJoins => exact .inl rfl
  | join hwords => exact .inr (headKind_append hwords.isJoinWord_headKind rfl _)

end Presents

/-! ## Parts are balanced -/

theorem Balanced.cons_kind {t : Token} {ts : List Token} {kind : Terminal} (ht : t.kind = kind)
    (hkind : isPlain kind = true) (h : Balanced noStop ts) : Balanced noStop (t :: ts) :=
  .plain (ht ▸ hkind) rfl h

theorem Balanced.cons_word {t : Token} {ts : List Token} {p : Terminal → Bool}
    (ht : p t.kind = true) (hopen : p (.symbol .openPar) = false)
    (hclose : p (.symbol .closePar) = false) (heof : p .eof = false) (h : Balanced noStop ts) :
    Balanced noStop (t :: ts) :=
  .plain (isPlain_of_holds ht hopen hclose heof) rfl h

section PartsBalanced

variable {ts : List Token}

theorem NamePart.balanced {table : TableReference} (h : NamePart ts table) :
    Balanced noStop ts := by
  cases h with
  | bare htable => exact .cons_word htable rfl rfl rfl .nil
  | inSchema hschema hpoint htable =>
    exact .cons_word hschema rfl rfl rfl
      (.cons_kind hpoint rfl (.cons_word htable rfl rfl rfl .nil))

theorem PartitionPart.balanced (h : PartitionPart ts) : Balanced noStop ts := by
  cases h with
  | none => exact .nil
  | named hword hnames => exact .cons_kind hword rfl hnames.balanced

theorem AliasPart.balanced {alias? : Option NameAt} (h : AliasPart ts alias?) :
    Balanced noStop ts := by
  cases h with
  | none => exact .nil
  | bare ht => exact .cons_word ht rfl rfl rfl .nil
  | marked hmark ht =>
    exact .cons_kind hmark rfl (.cons_word ht rfl rfl rfl .nil)

theorem HintScope.balanced (h : HintScope ts) : Balanced noStop ts := by
  cases h with
  | everything => exact .nil
  | join hmark hword => exact .cons_kind hmark rfl (.cons_kind hword rfl .nil)
  | sorting hmark hword hlast =>
    obtain hword | hword := hword
    all_goals exact .cons_kind hmark rfl (.cons_kind hword rfl (.cons_kind hlast rfl .nil))

theorem Hint.balanced (h : Hint ts) : Balanced noStop ts := by
  obtain ⟨hword, hindex, hscope, hnames⟩ := h
  exact .cons_word hword rfl rfl rfl
    (.cons_word hindex rfl rfl rfl (hscope.balanced.append hnames.balanced))

theorem Hints.balanced (h : Hints ts) : Balanced noStop ts := by
  induction h with
  | none => exact .nil
  | next hhint _ ih => exact hhint.balanced.append ih
  | comma hhint hcomma _ _ ih => exact hhint.balanced.append (.cons_kind hcomma rfl ih)

theorem SingleTable.balanced {table : TableReference} (h : SingleTable ts table) :
    Balanced noStop ts := by
  obtain ⟨hname, hpartition, hnamed, hhints⟩ := h
  exact hname.balanced.append
    (hpartition.balanced.append (hnamed.balanced.append hhints.balanced))

theorem DerivedTable.balanced (h : DerivedTable ts) : Balanced noStop ts := by
  cases h with
  | plain hquery _ hnamed => exact hquery.balanced.append hnamed.balanced
  | lateral hword hquery _ hnamed =>
    exact .cons_kind hword rfl (hquery.balanced.append hnamed.balanced)

theorem JoinWords.balanced (h : JoinWords ts) : Balanced noStop ts := by
  induction h with
  | last ht => exact .cons_word (JoinWords.last ht).isJoinWord_headKind rfl rfl rfl .nil
  | more ht _ ih => exact .cons_word ht rfl rfl rfl ih

theorem JoinCondition.balanced (h : JoinCondition ts) : Balanced noStop ts := by
  cases h with
  | none => exact .nil
  | columns hword hnames => exact .cons_kind hword rfl hnames.balanced
  | expression hword hts => exact .cons_kind hword rfl hts.anywhere

/-- Every part can stand in parentheses. -/
theorem Presents.balanced {part : Part} {found : List Placed} (h : Presents part ts found) :
    Balanced noStop ts := by
  induction h with
  | dual ht => exact .cons_kind ht rfl .nil
  | single h => exact h.balanced
  | derived h => exact h.balanced
  | group hopen hclose _ _ ih => exact .group hopen hclose ih .nil
  | noJoins => exact .nil
  | join hwords _ hcondition _ ihts ihus =>
    exact hwords.balanced.append (ihts.append (hcondition.balanced.append ihus))
  | reference _ _ ihts ihus => exact ihts.append ihus
  | last _ ih => exact ih
  | comma _ hcomma _ ihts ihus => exact ihts.append (.cons_kind hcomma rfl ihus)

end PartsBalanced

end SqlCompletion.FromClause
