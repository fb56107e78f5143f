import SqlCompletion.Proofs.TableReading
set_option autoImplicit false

/-!
# The tokens that tables are read from

A reference is read from three tokens at most: its schema, its table and its alias (`Origin`). The
references of a clause stand in it one behind another: the tokens of one of them, in this order,
come before all tokens of the next, and no token is read twice (`exists_origins_of_tables`). So the
order in which references are found is that of the text.

That is a property which is passed on by all readers once it holds of a single table
(`traced_passedOn`), and the proof for a single table goes through the forms that it may have. What
is kept is that the tokens read so far, followed by those that are left, are a sublist of the tokens
that were given (`ReadFrom`). A sublist and not a list of places is enough, since nothing is said
here of the tokens that are passed over.

Which tokens are read as names is told by the origin (`Origin.WellFormed`). A text may name one
table twice, and then there are two origins.
-/

namespace SqlCompletion.FromClause

/-- The tokens that a reference is read from. -/
structure Origin where
  schema? : Option Token := none
  table : Token
  alias? : Option Token := none

/-- The alias that a token is. -/
def aliasOf (t : Token) : NameAt := ⟨Name.ofAliasText t.text, t.span⟩

namespace Origin

/-- The tokens, in the order in which they are written. -/
def tokens (o : Origin) : List Token := o.schema?.toList ++ o.table :: o.alias?.toList

/-- What is read from the tokens. -/
def reference (o : Origin) : TableReference :=
  { TableReference.ofTable (nameOf o.table) (o.schema?.map nameOf) with
    alias? := o.alias?.map aliasOf }

/-- The tokens may be read so. -/
structure WellFormed (o : Origin) : Prop where
  schema : ∀ t ∈ o.schema?, t.kind.isNameLike = true
  table : o.table.kind.isNameLike = true
  named : ∀ t ∈ o.alias?, isAlias true t.kind = true

end Origin

/-- The tables are read from these origins, one behind another, and all of them stand in front of
the tokens that are left. -/
structure ReadFrom (origins : List Origin) (tokens : List Token) (reading : Reading) : Prop where
  tables : reading.tables = origins.map Origin.reference
  order : (origins.flatMap Origin.tokens ++ reading.rest).Sublist tokens
  wellFormed : ∀ o ∈ origins, o.WellFormed

/-- There are origins that the tables are read from. -/
def Traced (tokens : List Token) (reading : Reading) : Prop :=
  ∃ origins, ReadFrom origins tokens reading

section

variable {tokens all rest : List Token} {reading first more : Reading}

theorem traced_nothing (h : rest <:+ tokens) : Traced tokens ⟨[], rest⟩ :=
  ⟨[], rfl, h.sublist, fun _ ho => absurd ho List.not_mem_nil⟩

theorem Traced.of_sublist (h : Traced tokens reading) (hsub : tokens.Sublist all) :
    Traced all reading := by
  obtain ⟨origins, h⟩ := h
  exact ⟨origins, h.tables, h.order.trans hsub, h.wellFormed⟩

theorem Traced.passing (h : Traced tokens reading) (hrest : rest <:+ reading.rest) :
    Traced tokens ⟨reading.tables, rest⟩ := by
  obtain ⟨origins, h⟩ := h
  exact ⟨origins, h.tables, (hrest.sublist.append_left _).trans h.order, h.wellFormed⟩

theorem Traced.append (hfirst : Traced tokens first) (hmore : Traced first.rest more) :
    Traced tokens ⟨first.tables ++ more.tables, more.rest⟩ := by
  obtain ⟨origins, hfirst⟩ := hfirst
  obtain ⟨origins', hmore⟩ := hmore
  refine ⟨origins ++ origins', ?_, ?_, ?_⟩
  · rw [List.map_append, hfirst.tables, hmore.tables]
  · rw [List.flatMap_append, List.append_assoc]
    exact (hmore.order.append_left _).trans hfirst.order
  · intro o ho
    exact (List.mem_append.1 ho).elim (hfirst.wellFormed o) (hmore.wellFormed o)

end

/-! ## Single tables -/

theorem readAlias_order (tokens : List Token) : ∃ alias? : Option Token,
    (readAlias tokens).1 = alias?.map aliasOf ∧
      (alias?.toList ++ (readAlias tokens).2).Sublist tokens ∧
      ∀ t ∈ alias?, isAlias true t.kind = true := by
  have hpass := passOver_suffix (.keyword .AS) tokens
  unfold readAlias
  dsimp only
  split
  · exact ⟨none, rfl, List.nil_sublist _, fun _ ht => nomatch ht⟩
  · rename_i t rest heq
    rw [heq] at hpass
    split
    · rename_i halias
      refine ⟨some t, rfl, hpass.sublist, fun u hu => ?_⟩
      obtain rfl := Option.some.inj hu
      exact isAlias_true_of halias
    · exact ⟨none, rfl, hpass.sublist, fun _ ht => nomatch ht⟩

/-- What follows the name of a table is read from tokens behind the name. -/
theorem finishTable_traced (bound : Nat) {schema? : Option Token} {table : Token}
    (hschema : ∀ t ∈ schema?, t.kind.isNameLike = true) (htable : table.kind.isNameLike = true)
    (tokens : List Token) :
    Traced (schema?.toList ++ table :: tokens)
      (finishTable bound (.ofTable (nameOf table) (schema?.map nameOf)) tokens) := by
  unfold finishTable
  dsimp only
  generalize hbehind : (if headKind tokens = .keyword .PARTITION then
    passParenthesized (tokens.drop 1) else tokens) = behind
  have hsuffix : behind <:+ tokens := hbehind ▸ passPartitions_suffix tokens
  obtain ⟨alias?, hread, horder, halias⟩ := readAlias_order behind
  refine ⟨[⟨schema?, table, alias?⟩], ?_, ?_, ?_⟩
  · rw [hread]
    rfl
  · have hrest : (alias?.toList ++ passHints bound (readAlias behind).2).Sublist tokens :=
      (((passHints_suffix bound _).sublist.append_left _).trans horder).trans hsuffix.sublist
    have horigin : [⟨schema?, table, alias?⟩].flatMap Origin.tokens =
        schema?.toList ++ table :: alias?.toList := List.flatMap_singleton _ _
    rw [horigin, List.append_assoc, List.cons_append]
    exact (hrest.cons_cons table).append_left _
  · intro o ho
    obtain rfl := List.mem_singleton.1 ho
    exact ⟨hschema, htable, halias⟩

theorem readTable_traced (bound : Nat) {t : Token} (ht : t.kind.isNameLike = true)
    (tokens : List Token) : Traced (t :: tokens) (readTable bound t tokens) := by
  have halone : ∀ behind, Traced (t :: behind)
      (finishTable bound (.ofTable (nameOf t) none) behind) :=
    finishTable_traced bound (fun _ h => nomatch (h : _ ∈ none)) ht
  unfold readTable
  split
  · rename_i point table rest
    split
    · rename_i hname
      have hboth : Traced (t :: table :: rest)
          (finishTable bound (.ofTable (nameOf table) (some (nameOf t))) rest) :=
        finishTable_traced bound (fun u (hu : u ∈ some t) => Option.some.inj hu ▸ ht) hname.2 rest
      exact hboth.of_sublist ((List.sublist_cons_self point _).cons_cons t)
    · exact halone _
  · exact halone _

/-! ## Clauses -/

theorem traced_passedOn (bound : Nat) : PassedOn bound Traced where
  nothing := traced_nothing
  of_suffix := fun h hsuffix => h.of_sublist hsuffix.sublist
  passing := Traced.passing
  append := Traced.append
  table := fun ht => readTable_traced bound ht _

/-- The tables of a clause are read from tokens of it, one behind another. -/
theorem exists_origins_of_tables (tokens : List Token) : ∃ origins : List Origin,
    tables tokens = origins.map Origin.reference ∧
      (origins.flatMap Origin.tokens).Sublist tokens ∧ ∀ o ∈ origins, o.WellFormed := by
  unfold tables
  dsimp only
  generalize hclause : passOver (.keyword .FROM) tokens = clause
  have hsuffix : clause <:+ tokens := hclause ▸ passOver_suffix (.keyword .FROM) tokens
  have htraced := traced_passedOn (clause.length + 1)
  have hinside := htraced.inside maxNesting
  obtain ⟨origins, hread⟩ := htraced.list (fun inner h tokens => (hinside inner h tokens).1)
    (fun inner h tokens => (hinside inner h tokens).2) (clause.length + 1) clause
  refine ⟨origins, hread.tables, ?_, hread.wellFormed⟩
  exact ((List.sublist_append_left _ _).trans hread.order).trans hsuffix.sublist

end SqlCompletion.FromClause
