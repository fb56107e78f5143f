import Mathlib.Data.List.Infix
import SqlCompletion.Table.FromClause
set_option autoImplicit false

/-!
# What is read of a `FROM` clause

Each reader of a clause takes tokens from the front and leaves an end of them, and what it finds has
names that are tokens among those it took (`Reads`). So the tables of a clause are drawn from its
tokens (`drawnFrom_of_mem_tables`): the names of a table and of its schema are read as names there,
and that of the alias as an alias (`TableReference.DrawnFrom`).

The readers call one another, down through groups, and several properties of what they read are
proved in the same way. What such a proof needs is put together once (`PassedOn`): the property
holds of a single table, where tokens are only passed over, and of readings one behind another. Then
it holds of every reader, by induction on the fuel and on the room for groups (`PassedOn.list`,
`PassedOn.inside`). Names among tokens are the first use of that; the order of the tokens that
tables are read from is another.

Functions that give no tables only pass over tokens, so what they leave is a suffix of what they
were given (`passOver_suffix` up to `passOuterJoinMark_suffix`). Nothing is assumed of the tokens,
which need not be those of a text.

That nothing is read which is not there says nothing of what is missed. Which tables are found is
told by what well-formed clauses present, in another module.
-/

namespace SqlCompletion

/-- The token moved right in the text. -/
def Token.shift (t : Token) (delta : Nat) : Token := { t with span := t.span.shift delta }

/-- All names of the reference are tokens among some: those of the table and of the schema are read
as names, and that of the alias as an alias. A reference to a schema alone stands where the schema
does. -/
structure TableReference.DrawnFrom (tokens : List Token) (r : TableReference) : Prop where
  table : r.kind = .table → ∃ t ∈ tokens, r.table? = some (Name.ofText t.text) ∧ r.span = t.span
  schemaAlone : r.kind = .schema →
    r.table? = none ∧ r.alias? = none ∧ ∃ n, r.schema? = some n ∧ r.span = n.span
  schema : ∀ n, r.schema? = some n → ∃ t ∈ tokens, n = FromClause.nameOf t
  named : ∀ n, r.alias? = some n → ∃ t ∈ tokens, FromClause.isAlias true t.kind = true ∧
    n = ⟨Name.ofAliasText t.text, t.span⟩

namespace TableReference.DrawnFrom

variable {tokens all : List Token} {r : TableReference}

theorem mono (h : r.DrawnFrom tokens) (hsub : tokens ⊆ all) : r.DrawnFrom all where
  table := by
    intro hkind
    obtain ⟨t, ht, htable⟩ := h.table hkind
    exact ⟨t, hsub ht, htable⟩
  schemaAlone := h.schemaAlone
  schema := by
    intro n hn
    obtain ⟨t, ht, hschema⟩ := h.schema n hn
    exact ⟨t, hsub ht, hschema⟩
  named := by
    intro n hn
    obtain ⟨t, ht, halias⟩ := h.named n hn
    exact ⟨t, hsub ht, halias⟩

/-- The names move with the tokens. -/
theorem shift (h : r.DrawnFrom tokens) (delta : Nat) :
    (r.shift delta).DrawnFrom (tokens.map (·.shift delta)) where
  table := by
    intro hkind
    obtain ⟨t, ht, htable, hspan⟩ := h.table hkind
    exact ⟨t.shift delta, List.mem_map_of_mem ht, htable, congrArg (·.shift delta) hspan⟩
  schemaAlone := by
    intro hkind
    obtain ⟨htable, halias, n, hn, hspan⟩ := h.schemaAlone hkind
    exact ⟨htable, congrArg (Option.map _) halias, n.shift delta, congrArg (Option.map _) hn,
      congrArg (·.shift delta) hspan⟩
  schema := by
    intro n hn
    obtain ⟨n, hschema, rfl⟩ := Option.map_eq_some_iff.1 hn
    obtain ⟨t, ht, rfl⟩ := h.schema n hschema
    exact ⟨t.shift delta, List.mem_map_of_mem ht, rfl⟩
  named := by
    intro n hn
    obtain ⟨n, hnamed, rfl⟩ := Option.map_eq_some_iff.1 hn
    obtain ⟨t, ht, halias, rfl⟩ := h.named n hnamed
    exact ⟨t.shift delta, List.mem_map_of_mem ht, halias, rfl⟩

end TableReference.DrawnFrom

namespace FromClause

/-! ## Passing over tokens -/

theorem passOver_suffix (kind : Terminal) (tokens : List Token) :
    passOver kind tokens <:+ tokens := by
  cases tokens with
  | nil => exact List.suffix_rfl
  | cons t rest =>
    rw [passOver]
    split
    · exact List.suffix_cons t rest
    · exact List.suffix_rfl

theorem passGroup_suffix (opening closing : Symbol) (depth : Nat) (tokens : List Token) :
    passGroup opening closing depth tokens <:+ tokens := by
  fun_induction passGroup opening closing depth tokens with
  | case1 => exact List.suffix_rfl
  | case2 => exact List.suffix_rfl
  | case3 _ t rest _ _ ih => exact ih.trans (List.suffix_cons t rest)
  | case4 t rest => exact List.suffix_cons t rest
  | case5 t rest _ _ _ _ ih => exact ih.trans (List.suffix_cons t rest)
  | case6 _ t rest _ _ _ ih => exact ih.trans (List.suffix_cons t rest)

theorem passParenthesized_suffix (tokens : List Token) : passParenthesized tokens <:+ tokens := by
  cases tokens with
  | nil => exact List.suffix_rfl
  | cons t rest =>
    rw [passParenthesized]
    split
    · exact (passGroup_suffix _ _ 0 rest).trans (List.suffix_cons t rest)
    · exact List.suffix_rfl

theorem passCondition_suffix (depth : Nat) (tokens : List Token) :
    passCondition depth tokens <:+ tokens := by
  fun_induction passCondition depth tokens with
  | case1 => exact List.suffix_rfl
  | case2 => exact List.suffix_rfl
  | case3 _ t rest _ _ ih => exact ih.trans (List.suffix_cons t rest)
  | case4 => exact List.suffix_rfl
  | case5 t rest _ _ _ _ ih => exact ih.trans (List.suffix_cons t rest)
  | case6 => exact List.suffix_rfl
  | case7 _ t rest _ _ _ _ ih => exact ih.trans (List.suffix_cons t rest)

theorem passHintScope_suffix (tokens : List Token) : passHintScope tokens <:+ tokens := by
  unfold passHintScope
  split
  · exact List.suffix_rfl
  · rename_i t rest
    split
    · split
      · exact List.nil_suffix
      · rename_i u tail
        have htail : tail <:+ t :: u :: tail :=
          (List.suffix_cons u tail).trans (List.suffix_cons t _)
        split
        · exact htail
        · exact (passOver_suffix _ tail).trans htail
    · exact List.suffix_rfl

theorem passHintComma_suffix (tokens : List Token) : passHintComma tokens <:+ tokens := by
  unfold passHintComma
  split
  · split
    · exact List.suffix_cons _ _
    · exact List.suffix_rfl
  · exact List.suffix_rfl

theorem passHints_suffix (fuel : Nat) (tokens : List Token) : passHints fuel tokens <:+ tokens := by
  fun_induction passHints fuel tokens with
  | case1 fuel t u rest _ ih =>
    have hrest : rest <:+ t :: u :: rest := (List.suffix_cons u rest).trans (List.suffix_cons t _)
    exact ((ih.trans (passHintComma_suffix _)).trans (passParenthesized_suffix _)).trans
      ((passHintScope_suffix rest).trans hrest)
  | case2 => exact List.suffix_rfl
  | case3 => exact List.suffix_rfl

theorem passHints_nil (fuel : Nat) : passHints fuel [] = [] := by
  cases fuel <;> rfl

theorem passHints_singleton (fuel : Nat) (t : Token) : passHints fuel [t] = [t] := by
  cases fuel <;> rfl

theorem passJoinWords_suffix (tokens : List Token) : (passJoinWords tokens).2 <:+ tokens := by
  induction tokens with
  | nil => exact List.suffix_rfl
  | cons t rest ih =>
    rw [passJoinWords]
    split
    · exact List.suffix_cons t rest
    · split
      · exact ih.trans (List.suffix_cons t rest)
      · exact List.suffix_rfl

theorem passJoinCondition_suffix (tokens : List Token) : passJoinCondition tokens <:+ tokens := by
  unfold passJoinCondition
  split
  · exact List.suffix_rfl
  · rename_i t rest
    split
    · exact (passCondition_suffix 0 rest).trans (List.suffix_cons t rest)
    · split
      · exact (passParenthesized_suffix rest).trans (List.suffix_cons t rest)
      · exact List.suffix_rfl

theorem passOuterJoinMark_suffix (tokens : List Token) : passOuterJoinMark tokens <:+ tokens := by
  unfold passOuterJoinMark
  split
  · exact List.suffix_rfl
  · split
    · exact List.suffix_cons _ _
    · exact List.suffix_rfl

/-! ## Names -/

theorem isAlias_true_of {explicit : Bool} {kind : Terminal} (h : isAlias explicit kind = true) :
    isAlias true kind = true := by
  cases explicit with
  | true => exact h
  | false =>
    unfold isAlias at h ⊢
    split at h
    · cases h
    · cases h
    · exact h

theorem readAlias_suffix (tokens : List Token) : (readAlias tokens).2 <:+ tokens := by
  have hpass := passOver_suffix (.keyword .AS) tokens
  unfold readAlias
  dsimp only
  split
  · exact List.nil_suffix
  · rename_i t rest heq
    rw [heq] at hpass
    split
    · exact (List.suffix_cons t rest).trans hpass
    · exact hpass

theorem readAlias_drawn {tokens : List Token} {n : NameAt} (h : (readAlias tokens).1 = some n) :
    ∃ t ∈ tokens, isAlias true t.kind = true ∧ n = ⟨Name.ofAliasText t.text, t.span⟩ := by
  have hpass := passOver_suffix (.keyword .AS) tokens
  unfold readAlias at h
  dsimp only at h
  split at h
  · cases h
  · rename_i t rest heq
    rw [heq] at hpass
    split at h
    · rename_i halias
      cases h
      exact ⟨t, hpass.subset List.mem_cons_self, isAlias_true_of halias, rfl⟩
    · cases h

/-! ## Readers -/

/-- The tables that were read are drawn from the tokens, and an end of the tokens is left. -/
structure Reads (tokens : List Token) (reading : Reading) : Prop where
  tables : ∀ r ∈ reading.tables, r.DrawnFrom tokens
  rest : reading.rest <:+ tokens

section

variable {tokens all : List Token} {reading first more : Reading}

theorem Reads.of_suffix (h : Reads tokens reading) (hsuffix : tokens <:+ all) :
    Reads all reading where
  tables := fun r hr => (h.tables r hr).mono hsuffix.subset
  rest := h.rest.trans hsuffix

/-- Tokens are only passed over. -/
theorem reads_none {rest : List Token} (h : rest <:+ tokens) : Reads tokens ⟨[], rest⟩ :=
  ⟨fun _ hr => absurd hr List.not_mem_nil, h⟩

theorem Reads.passing {rest : List Token} (h : Reads tokens reading)
    (hrest : rest <:+ reading.rest) : Reads tokens ⟨reading.tables, rest⟩ :=
  ⟨h.tables, hrest.trans h.rest⟩

theorem Reads.append (hfirst : Reads tokens first) (hmore : Reads first.rest more) :
    Reads tokens ⟨first.tables ++ more.tables, more.rest⟩ where
  tables := by
    intro r hr
    rcases List.mem_append.1 hr with hr | hr
    · exact hfirst.tables r hr
    · exact (hmore.tables r hr).mono hfirst.rest.subset
  rest := hmore.rest.trans hfirst.rest

theorem passPartitions_suffix (tokens : List Token) :
    (if headKind tokens = .keyword .PARTITION then passParenthesized (tokens.drop 1)
      else tokens) <:+ tokens := by
  split
  · exact (passParenthesized_suffix _).trans (List.drop_suffix 1 tokens)
  · exact List.suffix_rfl

theorem finishTable_suffix (bound : Nat) (table : TableReference) (tokens : List Token) :
    (finishTable bound table tokens).rest <:+ tokens :=
  ((passHints_suffix bound _).trans (readAlias_suffix _)).trans (passPartitions_suffix tokens)

theorem finishTable_reads (bound : Nat) {table : TableReference} (htable : table.DrawnFrom all)
    (hkind : table.kind = .table) (hsuffix : tokens <:+ all) :
    Reads all (finishTable bound table tokens) := by
  refine ⟨?_, (finishTable_suffix bound table tokens).trans hsuffix⟩
  intro r hr
  obtain rfl := List.mem_singleton.1 hr
  refine ⟨htable.table, fun h => ?_, htable.schema, fun n hn => ?_⟩
  · exact absurd (hkind.symm.trans h) (by simp)
  · obtain ⟨t, ht, halias⟩ := readAlias_drawn hn
    exact ⟨t, hsuffix.subset ((passPartitions_suffix tokens).subset ht), halias⟩

theorem drawnFrom_ofTable {table : Token} (htable : table ∈ all) (schema? : Option Token)
    (hschema : ∀ t ∈ schema?, t ∈ all) :
    (TableReference.ofTable (nameOf table) (schema?.map nameOf)).DrawnFrom all where
  table := fun _ => ⟨table, htable, rfl, rfl⟩
  schemaAlone := fun h => nomatch h
  schema := by
    intro n hn
    obtain ⟨t, ht, rfl⟩ := Option.map_eq_some_iff.1 hn
    exact ⟨t, hschema t ht, rfl⟩
  named := fun _ hn => nomatch hn

theorem readTable_suffix (bound : Nat) (t : Token) (tokens : List Token) :
    (readTable bound t tokens).rest <:+ tokens := by
  unfold readTable
  split
  · split
    · exact (finishTable_suffix _ _ _).trans
        ((List.suffix_cons _ _).trans (List.suffix_cons _ _))
    · exact finishTable_suffix _ _ _
  · exact finishTable_suffix _ _ _

theorem readTable_reads (bound : Nat) {t : Token} (ht : t ∈ all) (hsuffix : tokens <:+ all) :
    Reads all (readTable bound t tokens) := by
  have halone : (TableReference.ofTable (nameOf t) none).DrawnFrom all :=
    drawnFrom_ofTable ht none fun _ h => nomatch h
  unfold readTable
  split
  · rename_i point table rest
    split
    · have htable : table ∈ all := hsuffix.subset (by simp)
      have hboth : (TableReference.ofTable (nameOf table) (some (nameOf t))).DrawnFrom all :=
        drawnFrom_ofTable htable (some t) fun u hu => by
          obtain rfl := Option.some.inj hu
          exact ht
      refine finishTable_reads bound hboth rfl (List.IsSuffix.trans ?_ hsuffix)
      exact (List.suffix_cons table rest).trans (List.suffix_cons point _)
    · exact finishTable_reads bound halone rfl hsuffix
  · exact finishTable_reads bound halone rfl hsuffix

end

/-! ## What all readers pass on -/

/-- A property of readings that holds of whatever is read if it holds of the single tables: it holds
where tokens are only passed over, and of readings one behind another. -/
structure PassedOn (bound : Nat) (P : List Token → Reading → Prop) : Prop where
  nothing : ∀ {tokens rest : List Token}, rest <:+ tokens → P tokens ⟨[], rest⟩
  of_suffix : ∀ {tokens all : List Token} {reading : Reading},
    P tokens reading → tokens <:+ all → P all reading
  passing : ∀ {tokens rest : List Token} {reading : Reading},
    P tokens reading → rest <:+ reading.rest → P tokens ⟨reading.tables, rest⟩
  append : ∀ {tokens : List Token} {first more : Reading},
    P tokens first → P first.rest more → P tokens ⟨first.tables ++ more.tables, more.rest⟩
  table : ∀ {t : Token} {tokens : List Token},
    t.kind.isNameLike = true → P (t :: tokens) (readTable bound t tokens)

section

variable {bound : Nat} {P : List Token → Reading → Prop} {inner? : Option Inner}
  (h : PassedOn bound P) (hlist : ∀ inner ∈ inner?, ∀ tokens, P tokens (inner.list tokens))
  (hreference : ∀ inner ∈ inner?, ∀ tokens, P tokens (inner.reference tokens))

include h hlist in
theorem PassedOn.factor (tokens : List Token) :
    P tokens (FromClause.factor bound inner? tokens) := by
  cases tokens with
  | nil => exact h.nothing List.suffix_rfl
  | cons t rest =>
    unfold FromClause.factor
    dsimp only
    split
    · split
      · exact h.nothing ((readAlias_suffix _).trans (passParenthesized_suffix _))
      · cases inner? with
        | none => exact h.nothing (passParenthesized_suffix _)
        | some inner =>
          have hinside := h.passing (hlist inner rfl rest) (passOver_suffix (.symbol .closePar) _)
          exact h.of_suffix hinside (List.suffix_cons t rest)
    · split
      · exact h.nothing (((readAlias_suffix _).trans (passParenthesized_suffix rest)).trans
          (List.suffix_cons t rest))
      · split
        · exact h.nothing (List.suffix_cons t rest)
        · split
          · rename_i hname
            exact h.table hname
          · exact h.nothing List.suffix_rfl

include h hlist in
theorem PassedOn.joins (fuel : Nat) (tokens : List Token) :
    P tokens (FromClause.joins bound inner? fuel tokens) := by
  induction fuel generalizing tokens with
  | zero => exact h.nothing List.suffix_rfl
  | succ fuel ih =>
    have hwords := passJoinWords_suffix tokens
    rw [FromClause.joins]
    split
    · split
      · rename_i rest heq
        rw [heq] at hwords
        exact h.nothing hwords
      · rename_i rest heq
        rw [heq] at hwords
        have hmore := h.of_suffix
          (ih (passJoinCondition (FromClause.factor bound inner? rest).rest))
          (passJoinCondition_suffix _)
        exact h.of_suffix (h.append (h.factor hlist rest) hmore) hwords
    · exact h.nothing List.suffix_rfl

include h hreference in
theorem PassedOn.braces (tokens : List Token) : P tokens (FromClause.braces inner? tokens) := by
  cases inner? with
  | none => exact h.nothing (passGroup_suffix _ _ 0 tokens)
  | some inner =>
    have hinside := h.passing (hreference inner rfl (passOuterJoinMark tokens))
      (passGroup_suffix .openCurly .closeCurly 0 _)
    exact h.of_suffix hinside (passOuterJoinMark_suffix tokens)

include h hlist hreference

theorem PassedOn.reference (tokens : List Token) :
    P tokens (FromClause.reference bound inner? tokens) := by
  unfold FromClause.reference
  split
  · exact h.of_suffix (h.braces hreference _) (List.drop_suffix 1 tokens)
  · exact h.append (h.factor hlist tokens) (h.joins hlist bound _)

theorem PassedOn.list (fuel : Nat) (tokens : List Token) :
    P tokens (FromClause.list bound inner? fuel tokens) := by
  induction fuel generalizing tokens with
  | zero => exact h.nothing List.suffix_rfl
  | succ fuel ih =>
    have hfirst := h.reference hlist hreference tokens
    rw [FromClause.list]
    dsimp only
    split
    · exact h.append hfirst (h.of_suffix (ih _) (List.drop_suffix 1 _))
    · exact hfirst

end

/-- The readers for the inside of a group pass it on as well, down to the deepest. -/
theorem PassedOn.inside {bound : Nat} {P : List Token → Reading → Prop} (h : PassedOn bound P)
    (room : Nat) : ∀ inner ∈ inside? bound room, ∀ tokens,
      P tokens (inner.list tokens) ∧ P tokens (inner.reference tokens) := by
  induction room with
  | zero =>
    intro inner hinner
    cases hinner
  | succ room ih =>
    intro inner hinner tokens
    rw [inside?, Option.mem_some_iff] at hinner
    subst hinner
    have hlist := fun inner hinner tokens => (ih inner hinner tokens).1
    have hreference := fun inner hinner tokens => (ih inner hinner tokens).2
    exact ⟨h.list hlist hreference bound tokens, h.reference hlist hreference tokens⟩

/-! ## Names among the tokens -/

/-- The readers for the inside of a group read so. -/
structure Inner.Sound (inner : Inner) : Prop where
  list : ∀ tokens, Reads tokens (inner.list tokens)
  reference : ∀ tokens, Reads tokens (inner.reference tokens)

theorem reads_passedOn (bound : Nat) : PassedOn bound Reads where
  nothing := reads_none
  of_suffix := Reads.of_suffix
  passing := Reads.passing
  append := Reads.append
  table := fun _ => readTable_reads bound List.mem_cons_self (List.suffix_cons _ _)

section

variable {inner? : Option Inner} (bound : Nat) (hinner : ∀ inner ∈ inner?, inner.Sound)
include hinner

theorem factor_reads (tokens : List Token) : Reads tokens (factor bound inner? tokens) :=
  (reads_passedOn bound).factor (fun inner h => (hinner inner h).list) tokens

theorem reference_reads (tokens : List Token) : Reads tokens (reference bound inner? tokens) :=
  (reads_passedOn bound).reference (fun inner h => (hinner inner h).list)
    (fun inner h => (hinner inner h).reference) tokens

theorem list_reads (fuel : Nat) (tokens : List Token) :
    Reads tokens (list bound inner? fuel tokens) :=
  (reads_passedOn bound).list (fun inner h => (hinner inner h).list)
    (fun inner h => (hinner inner h).reference) fuel tokens

end

theorem inside?_reads (bound room : Nat) : ∀ inner ∈ inside? bound room, inner.Sound := by
  intro inner h
  have hboth := (reads_passedOn bound).inside room inner h
  exact ⟨fun tokens => (hboth tokens).1, fun tokens => (hboth tokens).2⟩

/-- The tables of a clause are drawn from its tokens. -/
theorem drawnFrom_of_mem_tables {tokens : List Token} {r : TableReference}
    (h : r ∈ tables tokens) : r.DrawnFrom tokens := by
  unfold tables at h
  dsimp only at h
  have hinner := inside?_reads ((passOver (.keyword .FROM) tokens).length + 1) maxNesting
  have hreads := list_reads ((passOver (.keyword .FROM) tokens).length + 1) hinner
    ((passOver (.keyword .FROM) tokens).length + 1) (passOver (.keyword .FROM) tokens)
  exact (hreads.tables r h).mono (passOver_suffix _ tokens).subset

end FromClause

end SqlCompletion
