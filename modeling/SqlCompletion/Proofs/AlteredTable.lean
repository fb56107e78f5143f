import SqlCompletion.Proofs.Chains
import SqlCompletion.Proofs.Naming
import SqlCompletion.Proofs.Provenance
import SqlCompletion.Proofs.Withholding
set_option autoImplicit false

/-!
# The table that is altered

Where a column of the altered table can stand, that table is looked up from the caret backwards: the
nearest `ALTER` counts, and `TABLE` has to be right behind it. But a change of a column may start
with `ALTER` as well, and words may stand between `ALTER` and `TABLE`. So the table is found just in
the statements that have neither (`Alteration.IsPlain`), and then it is one of the suggestions
(`Engine.alteredTable_found`). For all other statements the result says that it is not in scope.

The statement is given as its tokens, in the parts that the search tells apart (`Alteration`). That
the caret is where columns of the altered table are asked for, and no others, is a hypothesis on the
candidates (`AwaitsColumn`). All options, texts and carets are allowed besides, as long as the text
is not too large and the caret can be resolved.

What the search reads behind the name is always there: the grammar has a column of the altered table
only inside of a change, behind the name and at least one more terminal
(`Mysql.input_of_columnInternalRef`). To see that, the rules that lead to the column are followed
back, each of which one body alone refers to (`Mysql.expects_caller`).

Behind `ALTER TABLE users ALTER` the table is missed (`alteredUsers_missed`): the second `ALTER` is
the nearest one, and `TABLE` is not behind it.
-/

namespace SqlCompletion

/-! ## Rules and where they are called -/

namespace Grammar

variable {g : Grammar} {v : Version} {input w : List Terminal} {chain : List Rule} {r : Rule}

/-- A rule other than the entry is called from the body of a rule that is next behind a first part
of the input. -/
theorem Expects.caller (h : g.Expects v input chain (.rule r)) (hentry : r ≠ g.entry) :
    ∃ outer q body u w, input = u ++ w ∧ g.Expects v u outer (.rule q) ∧ g.body? q = some body ∧
      r ∈ body.rules ∧ g.Reaches v body [] w [] (.rule r) := by
  rcases List.eq_nil_or_concat chain with rfl | ⟨outer, q, rfl⟩
  · have hnext := h.invocations.1 r rfl
    rw [Element.rules, List.mem_singleton] at hnext
    exact absurd hnext hentry
  · obtain ⟨u, w, body, hinput, hu, hbody, hw⟩ := h.split List.concat_eq_append
    exact ⟨outer, q, body, u, w, hinput, hu, hbody, hw.invocations.1 r rfl, hw⟩

/-- Where the first element of a sequence does not refer to the rule that is next, it has been
derived. -/
theorem Reaches.behind {e : Element} {rest follow : List Element}
    (h : Reaches g v (.seq (e :: rest)) follow w [] (.rule r)) (hr : r ∉ e.rules) :
    ∃ u w', w = u ++ w' ∧ Derives g v e u ∧ Reaches g v (.seq rest) follow w' [] (.rule r) := by
  cases h with
  | seqHead inner => exact absurd (inner.invocations.1 r rfl) hr
  | seqTail head inner => exact ⟨_, _, rfl, head, inner⟩

end Grammar

namespace Mysql

variable {v : Version} {input w : List Terminal}

/-- The body of `q` refers to the rule `r` only if `q` is the caller. -/
def isCalledBy (caller r q : Rule) : Bool := !(body q).rules.contains r || q == caller

/-- A rule that one body alone refers to is called from that body. -/
theorem expects_caller {chain : List Rule} {caller r : Rule} (hentry : r ≠ .query)
    (honly : ∀ q, isCalledBy caller r q = true)
    (h : grammar.Expects v input chain (.rule r)) :
    ∃ outer u w, input = u ++ w ∧ grammar.Expects v u outer (.rule caller) ∧
      grammar.Reaches v (body caller) [] w [] (.rule r) := by
  obtain ⟨outer, q, _, u, w, hinput, hu, hbody, hcalls, hw⟩ := h.caller hentry
  obtain rfl := Option.some.inj hbody
  have hq : q = caller := by simpa [isCalledBy, hcalls] using honly q
  exact ⟨outer, u, w, hinput, hq ▸ hu, hq ▸ hw⟩

theorem caller_columnInternalRef : ∀ q, isCalledBy .alterListItem .columnInternalRef q = true :=
  Rule.forall_of_ofNat (by decide +kernel)

theorem caller_alterListItem : ∀ q, isCalledBy .alterTableActions .alterListItem q = true :=
  Rule.forall_of_ofNat (by decide +kernel)

theorem caller_alterTableActions : ∀ q, isCalledBy .alterTable .alterTableActions q = true :=
  Rule.forall_of_ofNat (by decide +kernel)

/-- A change of a table starts with a terminal in front of a column. -/
theorem ne_nil_of_alterListItem
    (h : grammar.Reaches v (body .alterListItem) [] w [] (.rule .columnInternalRef)) : w ≠ [] := by
  intro hnil
  have hhead := (h.corners takesMarked hnil).1 _ rfl
  exact absurd hhead (by decide)

/-- The changes of a table stand behind `TABLE` and a name. -/
theorem input_of_alterTable
    (h : grammar.Reaches v (body .alterTable) [] w [] (.rule .alterTableActions)) :
    ∃ before name, w = before ++ .keyword .TABLE :: name ∧ name ≠ [] := by
  obtain ⟨u₁, w₁, rfl, -, h₁⟩ := Grammar.Reaches.behind h (by decide)
  obtain ⟨u₂, w₂, rfl, -, h₂⟩ := h₁.behind (by decide)
  obtain ⟨u₃, w₃, rfl, htable, h₃⟩ := h₂.behind (by decide)
  obtain ⟨u₄, w₄, rfl, hname, -⟩ := h₃.behind (by decide)
  cases htable
  have hne : u₄ ≠ [] := hname.ne_nil takesMarked rfl
  refine ⟨u₁ ++ u₂, u₄ ++ w₄, by simp, ?_⟩
  exact List.append_ne_nil_of_left_ne_nil hne w₄

/-- The name of a column of the altered table is one terminal: what is typed is in front of it. -/
theorem expects_columnInternalRef {s : TokenStream} {caretIndex : Nat}
    (h : .columnInternalRef ∈ (collect grammar v s caretIndex).ruleNames) :
    ∃ around, grammar.Expects v (s.kindsBefore caretIndex) around (.rule .columnInternalRef) := by
  obtain ⟨around, haround⟩ := List.exists_mem_of_ne_nil _ (chains_ne_nil_of_mem h)
  obtain ⟨before, inside, hinput, hbefore, hinside⟩ :=
    (Grammar.ledTo_of_reported (reported_of_mem_chains haround)).matched
  have hnil : inside = [] := by
    rcases hinside with hnil | ⟨_, inner, spot, hbody, hname⟩
    · exact hnil
    · obtain rfl := Option.some.inj hbody
      cases hname
      rfl
  rw [hnil, List.append_nil] at hinput
  exact ⟨around, hinput ▸ hbefore⟩

/-- In front of a column of the altered table stand `TABLE` and at least two more terminals. -/
theorem input_of_columnInternalRef {s : TokenStream} {caretIndex : Nat}
    (h : .columnInternalRef ∈ (collect grammar v s caretIndex).ruleNames) :
    ∃ before behind, s.kindsBefore caretIndex = before ++ .keyword .TABLE :: behind ∧
      2 ≤ behind.length := by
  obtain ⟨around, hcolumn⟩ := expects_columnInternalRef h
  obtain ⟨_, u₁, change, hinput, hitem, hchange⟩ :=
    expects_caller (by decide) caller_columnInternalRef hcolumn
  obtain ⟨_, u₂, changes, rfl, hactions, -⟩ :=
    expects_caller (by decide) caller_alterListItem hitem
  obtain ⟨_, u₃, table, rfl, -, htable⟩ :=
    expects_caller (by decide) caller_alterTableActions hactions
  obtain ⟨before, name, rfl, hname⟩ := input_of_alterTable htable
  refine ⟨u₃ ++ before, name ++ changes ++ change, by simp [hinput], ?_⟩
  have hlength := List.length_pos_iff.2 hname
  have hmore := List.length_pos_iff.2 (ne_nil_of_alterListItem hchange)
  rw [List.length_append, List.length_append]
  omega

end Mysql

/-! ## Alterations -/

/-- The words that may stand between `ALTER` and `TABLE`. -/
def alterWords : List Terminal := [.keyword .ONLINE, .keyword .OFFLINE, .keyword .IGNORE]

/-- The tokens of a statement that alters a table: `ALTER`, words, `TABLE`, the name of the table
with the schema and the dot in front of it, or without, and more. -/
structure Alteration where
  alter : Token
  words : List Token
  word : Token
  qualifier : List Token
  table : Token
  rest : List Token
  alter_kind : alter.kind = .keyword .ALTER
  words_kind : ∀ t ∈ words, t.kind ∈ alterWords
  word_kind : word.kind = .keyword .TABLE
  qualifier_kind : (qualifier = [] ∧ ∀ t ∈ rest.head?, t.kind ≠ .symbol .dot) ∨
    ∃ schema point, qualifier = [schema, point] ∧ schema.kind.isNameLike = true ∧
      point.kind = .symbol .dot
  table_kind : table.kind.isNameLike = true

namespace Alteration

variable {a : Alteration}

/-- The tokens in front of the name of the table. -/
def lead (a : Alteration) : List Token := a.alter :: (a.words ++ a.word :: a.qualifier)

/-- All the tokens. -/
def tokens (a : Alteration) : List Token := a.lead ++ a.table :: a.rest

/-- Nothing stands between `ALTER` and `TABLE`, and there is no other `ALTER` up to the token that
the caret touches. -/
def IsPlain (a : Alteration) (s : TokenStream) (touched : Nat) : Prop :=
  a.words = [] ∧ ∀ t ∈ s.visibleBefore (touched + 1), t.kind = .keyword .ALTER → t = a.alter

/-- The tokens have been typed up to a place where a column of the altered table can stand, and no
other column. -/
structure AwaitsColumn (a : Alteration) (d : Dialect) (s : TokenStream) (caretIndex : Nat) :
    Prop where
  tokens : s.shownBefore caretIndex = a.tokens
  column : .columnInternalRef ∈ (Collector.mysql d s caretIndex).ruleNames
  other : .columnRef ∉ (Collector.mysql d s caretIndex).ruleNames

/-- In front of the name there is one `ALTER` only. -/
theorem eq_alter_of_mem_lead {t : Token} (ht : t ∈ a.lead) (hkind : t.kind = .keyword .ALTER) :
    t = a.alter := by
  rcases List.mem_cons.1 ht with rfl | ht
  · rfl
  · exfalso
    rcases List.mem_append.1 ht with hword | ht
    · have hkinds := a.words_kind t hword
      rw [hkind] at hkinds
      exact absurd hkinds (by decide)
    · rcases List.mem_cons.1 ht with rfl | hname
      · rw [a.word_kind] at hkind
        exact absurd hkind (by decide)
      · rcases a.qualifier_kind with ⟨hnone, -⟩ | ⟨schema, point, hboth, hschema, hpoint⟩
        · rw [hnone] at hname
          cases hname
        · rw [hboth, List.mem_pair] at hname
          rcases hname with rfl | rfl
          · rw [hkind] at hschema
            exact absurd hschema (by decide)
          · rw [hpoint] at hkind
            exact absurd hkind (by decide)

/-- Where a column of the altered table can stand, more than its name has been typed. -/
theorem rest_ne_nil {d : Dialect} {source : String} {s : TokenStream}
    {caretIndex : Nat} (h : a.AwaitsColumn d s caretIndex) (hs : s = .ofText d source)
    (hbare : a.qualifier = []) : a.rest ≠ [] := by
  intro hrest
  obtain ⟨before, behind, hinput, hlength⟩ := Mysql.input_of_columnInternalRef h.column
  have hkinds : s.kindsBefore caretIndex = a.tokens.map Token.kind := by
    rw [← h.tokens, hs, TokenStream.kindsBefore_ofText]
    rfl
  have htokens : a.tokens.map Token.kind =
      (.keyword .ALTER :: a.words.map Token.kind) ++ .keyword .TABLE :: [a.table.kind] := by
    simp [tokens, lead, hbare, hrest, a.alter_kind, a.word_kind]
  rw [hkinds, htokens] at hinput
  -- The only `TABLE` has one token behind it.
  have hfront : Terminal.keyword .TABLE ∉ .keyword .ALTER :: a.words.map Token.kind := by
    intro hmem
    rcases List.mem_cons.1 hmem with heq | hmem
    · exact absurd heq (by decide)
    · obtain ⟨t, ht, hkind⟩ := List.mem_map.1 hmem
      have hword := a.words_kind t ht
      rw [hkind] at hword
      exact absurd hword (by decide)
  have hback : Terminal.keyword .TABLE ∉ [a.table.kind] := by
    intro hmem
    have hname := a.table_kind
    rw [← List.mem_singleton.1 hmem] at hname
    exact absurd hname (by decide)
  obtain ⟨-, -, rfl⟩ := (List.append_cons_inj_of_notMem hfront hback).1 hinput
  rw [List.length_singleton] at hlength
  omega

/-- Behind an `ALTER` with `TABLE` next, the table is read. -/
theorem tableBehindAlter_eq (more : List Token) (hwords : a.words = [])
    (hmore : a.qualifier = [] → a.rest ≠ []) :
    ∃ schema? others, Scope.tableBehindAlter
        (a.words ++ a.word :: (a.qualifier ++ a.table :: (a.rest ++ more))) =
      .ofTable (FromClause.nameOf a.table) schema? :: others := by
  rw [hwords, List.nil_append]
  rcases a.qualifier_kind with ⟨hnone, hrest⟩ | ⟨schema, point, hboth, hschema, hpoint⟩
  · obtain ⟨next, rest, hcons⟩ := List.exists_cons_of_ne_nil (hmore hnone)
    have hdot : next.kind ≠ .symbol .dot := hrest next (by rw [hcons]; rfl)
    refine ⟨none, [], ?_⟩
    rw [hnone, hcons, List.nil_append, List.cons_append, Scope.tableBehindAlter,
      if_pos ⟨a.word_kind, a.table_kind⟩]
    cases rest ++ more with
    | nil => rfl
    | cons u us => exact if_neg fun h => hdot h.1
  · refine ⟨some (FromClause.nameOf schema), [.ofSchema (FromClause.nameOf schema)], ?_⟩
    rw [hboth]
    simp [Scope.tableBehindAlter, a.word_kind, hschema, hpoint, a.table_kind]

theorem tableBehindAlter_eq_nil {first : Token} {others : List Token}
    (h : first.kind ≠ .keyword .TABLE) : Scope.tableBehindAlter (first :: others) = [] := by
  cases others with
  | nil => rfl
  | cons second rest => exact if_neg fun hboth => h hboth.1

section

variable {s : TokenStream} {caretIndex touched : Nat}

theorem visible_eq (htokens : s.shownBefore caretIndex = a.tokens) :
    s.visible = a.lead ++ a.table :: (a.rest ++ s.shownFrom caretIndex) := by
  rw [TokenStream.visible_eq_append s caretIndex, htokens, tokens, List.append_assoc,
    List.cons_append]

theorem shownBefore_alter (h : s.Indexed) (htokens : s.shownBefore caretIndex = a.tokens) :
    s.shownBefore a.alter.index = [] ∧ s.visibleAfter a.alter.index =
      a.words ++ a.word :: (a.qualifier ++ a.table :: (a.rest ++ s.shownFrom caretIndex)) := by
  refine h.shown_of_split ?_
  rw [visible_eq htokens, lead]
  simp

/-- `ALTER` is the nearest one just where it is the only one. -/
theorem find?_eq_alter_iff (h : s.Indexed) (htokens : s.shownBefore caretIndex = a.tokens)
    (hle : caretIndex ≤ touched) :
    (s.visibleBefore (touched + 1)).find? (fun t => t.kind == .keyword .ALTER) = some a.alter ↔
      ∀ t ∈ s.visibleBefore (touched + 1), t.kind = .keyword .ALTER → t = a.alter := by
  constructor
  · intro hfind
    obtain ⟨-, nearer, farther, hsplit, hnearer⟩ := List.find?_eq_some_iff_append.1 hfind
    -- The tokens that are farther from the caret are those in front of `ALTER`.
    have hvisible : s.visible = farther.reverse ++ a.alter ::
        (nearer.reverse ++ s.shownFrom (touched + 1)) := by
      have hbefore : s.shownBefore (touched + 1) = (nearer ++ a.alter :: farther).reverse := by
        rw [← hsplit, TokenStream.visibleBefore, List.reverse_reverse]
        rfl
      rw [TokenStream.visible_eq_append s (touched + 1), hbefore]
      simp
    have hnone : farther = [] := by
      have hfront := (h.shown_of_split hvisible).1
      rw [(shownBefore_alter h htokens).1] at hfront
      exact List.reverse_eq_nil_iff.1 hfront.symm
    intro t ht hkind
    rw [hsplit, hnone, List.mem_append, List.mem_singleton] at ht
    rcases ht with ht | rfl
    · have hother := hnearer t ht
      simp [hkind] at hother
    · rfl
  · intro honly
    have halter : a.alter ∈ s.visibleBefore (touched + 1) := by
      have hshown : a.alter ∈ s.shownBefore caretIndex := by
        rw [htokens]
        exact List.mem_append_left _ List.mem_cons_self
      obtain ⟨hvisible, hlt⟩ := h.mem_shownBefore_iff.1 hshown
      exact List.mem_reverse.2 (h.mem_shownBefore_iff.2 ⟨hvisible, by omega⟩)
    have hsome : ((s.visibleBefore (touched + 1)).find?
        fun t => t.kind == .keyword .ALTER).isSome = true :=
      List.find?_isSome.2 ⟨a.alter, halter, by simp [a.alter_kind]⟩
    obtain ⟨t, ht⟩ := Option.isSome_iff_exists.1 hsome
    have hkind : t.kind = .keyword .ALTER := by simpa using List.find?_some ht
    rw [ht, honly t (List.mem_of_find?_eq_some ht) hkind]

theorem altered_of_isPlain (h : s.Indexed) (htokens : s.shownBefore caretIndex = a.tokens)
    (hle : caretIndex ≤ touched) (hmore : a.qualifier = [] → a.rest ≠ [])
    (hplain : a.IsPlain s touched) :
    ∃ schema? others, Scope.altered s touched =
      .ofTable (FromClause.nameOf a.table) schema? :: others := by
  obtain ⟨schema?, others, hread⟩ := tableBehindAlter_eq (s.shownFrom caretIndex) hplain.1 hmore
  refine ⟨schema?, others, ?_⟩
  rw [Scope.altered, (find?_eq_alter_iff h htokens hle).2 hplain.2]
  dsimp only
  rw [(shownBefore_alter h htokens).2, hread]

/-- The table is read off its place in the plain statements only: the name stands behind the nearest
`ALTER`, and in front of the name there is one only. -/
theorem isPlain_of_mem_altered (h : s.Tiles) (htokens : s.shownBefore caretIndex = a.tokens)
    (hle : caretIndex ≤ touched) {r : TableReference} (hr : r ∈ Scope.altered s touched)
    (hkind : r.kind = .table) (hspan : r.span = a.table.span) : a.IsPlain s touched := by
  have hindexed : s.Indexed := h.index
  have htable : a.table ∈ s.tokens := by
    refine s.visible_subset ?_
    rw [visible_eq htokens]
    exact List.mem_append_right _ List.mem_cons_self
  unfold Scope.altered at hr
  split at hr
  · cases hr
  · rename_i alter hfind
    obtain ⟨t, ht, -, hplace⟩ := (Scope.drawnFrom_tableBehindAlter hr).1.table hkind
    obtain rfl : t = a.table := h.eq_of_span_eq (s.visibleAfter_subset _ ht) htable
      (hplace.symm.trans hspan)
    have hlt : alter.index < a.table.index := hindexed.le_of_mem_drop (List.mem_of_mem_filter ht)
    have halter : alter = a.alter := by
      refine eq_alter_of_mem_lead ?_ (by simpa using List.find?_some hfind)
      have hmem : alter ∈ s.visible := by
        have hbefore := List.mem_reverse.1 (List.mem_of_find?_eq_some hfind)
        exact (hindexed.mem_shownBefore_iff.1 hbefore).1
      rw [← (hindexed.shown_of_split (visible_eq htokens)).1]
      exact hindexed.mem_shownBefore_iff.2 ⟨hmem, hlt⟩
    subst halter
    refine ⟨?_, (find?_eq_alter_iff hindexed htokens hle).1 hfind⟩
    rw [(shownBefore_alter hindexed htokens).2] at hr
    by_contra hwords
    obtain ⟨first, words, hcons⟩ := List.exists_cons_of_ne_nil hwords
    have hfirst : first.kind ≠ .keyword .TABLE := by
      intro hword
      have hkinds := a.words_kind first (by rw [hcons]; exact List.mem_cons_self)
      rw [hword] at hkinds
      exact absurd hkinds (by decide)
    rw [hcons, List.cons_append, tableBehindAlter_eq_nil hfirst] at hr
    cases hr

end

end Alteration

/-! ## Requests -/

theorem Span.eq_of_shift_eq {s t : Span} {delta : Nat} (h : s.shift delta = t.shift delta) :
    s = t := by
  cases s
  cases t
  simpa [shift] using h

namespace Engine

theorem need?_eq_alteredColumn {rules : List Rule} (hcolumn : .columnInternalRef ∈ rules)
    (hother : .columnRef ∉ rules) : need? rules = some .alteredColumn := by
  induction rules with
  | nil => cases hcolumn
  | cons r rules ih =>
    rw [List.mem_cons, not_or] at hother
    rw [need?, List.findSome?_cons]
    split
    · rename_i need hneeds
      split at hneeds
      · exact absurd rfl hother.1
      · exact hneeds.symm
      · cases hneeds
    · rename_i hnone
      refine ih ?_ hother.2
      rcases List.mem_cons.1 hcolumn with rfl | hmem
      · cases hnone
      · exact hmem

section

variable {options : Options} {source : String} {offset : Nat} {a : Alteration} {s : TokenStream}

/-- Where a column of the altered table can stand and no other one, that table is looked up. -/
theorem references_of_awaitsColumn (statement : Span) (hs : s = .ofText options.dialect source)
    (h : a.AwaitsColumn options.dialect s (Caret.index s offset)) :
    ((mysql options).analyzeStatement statement source offset).references =
      (Scope.altered s (s.indexAt offset)).map (·.shift statement.start) := by
  subst hs
  change ((mysql options).tablesInScope _ _ _ (need? (Collector.mysql options.dialect
    (.ofText options.dialect source) (Caret.index (.ofText options.dialect source)
      offset)).ruleNames)).map _ = _
  rw [need?_eq_alteredColumn h.column h.other]
  rfl

/-- The first table in scope is one of the suggestions there. -/
theorem mem_items_of_firstNamed (statement : Span) (hs : s = .ofText options.dialect source)
    (h : a.AwaitsColumn options.dialect s (Caret.index s offset)) {name : String}
    {r : TableReference} (hfirst : FirstNamed
      ((mysql options).analyzeStatement statement source offset).references name r) :
    ⟨name, .table⟩ ∈ ((mysql options).analyzeStatement statement source offset).items := by
  subst hs
  obtain ⟨keywords, columns, tables, hblocks, -, -, htables⟩ :=
    (suggest_accounted (mysql options)
      ((mysql options).analyzeStatement statement source offset).references
      (Collector.mysql options.dialect (.ofText options.dialect source)
        (Caret.index (.ofText options.dialect source) offset))).blocks
  have hitems : ((mysql options).analyzeStatement statement source offset).items =
      Item.blocks keywords columns tables := hblocks
  rw [hitems]
  exact List.mem_append_right _ (List.mem_map_of_mem (htables.altered h.column name r hfirst))

/-- Of the statements that alter a table, the plain ones are those in which the table is found. -/
theorem found_iff_isPlain (statement : Span) (hs : s = .ofText options.dialect source)
    (h : a.AwaitsColumn options.dialect s (Caret.index s offset)) :
    ((∃ r ∈ ((mysql options).analyzeStatement statement source offset).references,
        r.kind = .table ∧ r.span = a.table.span.shift statement.start) ↔
      a.IsPlain s (s.indexAt offset)) ∧
    (a.IsPlain s (s.indexAt offset) → ⟨Name.ofText a.table.text, .table⟩ ∈
      ((mysql options).analyzeStatement statement source offset).items) := by
  have htiles : s.Tiles := by
    rw [hs]
    exact (TokenStream.isLaid_ofText options.dialect source).tiles
  have hle : Caret.index s offset ≤ s.indexAt offset := by
    rcases Caret.index_eq_or s offset with heq | heq
    · omega
    · omega
  have hreferences := references_of_awaitsColumn statement hs h
  have hplain : a.IsPlain s (s.indexAt offset) → ∃ schema? others,
      ((mysql options).analyzeStatement statement source offset).references =
        (TableReference.ofTable (FromClause.nameOf a.table) schema?).shift statement.start ::
          others := by
    intro hplain
    obtain ⟨schema?, others, haltered⟩ :=
      a.altered_of_isPlain htiles.index h.tokens hle (Alteration.rest_ne_nil h hs) hplain
    exact ⟨schema?, others.map (·.shift statement.start), by rw [hreferences, haltered]; rfl⟩
  refine ⟨⟨?_, ?_⟩, ?_⟩
  · rintro ⟨r, hr, hkind, hspan⟩
    rw [hreferences] at hr
    obtain ⟨r', hr', rfl⟩ := List.mem_map.1 hr
    exact a.isPlain_of_mem_altered htiles h.tokens hle hr' hkind (Span.eq_of_shift_eq hspan)
  · intro hp
    obtain ⟨schema?, others, heq⟩ := hplain hp
    rw [heq]
    exact ⟨_, List.mem_cons_self, rfl, rfl⟩
  · intro hp
    obtain ⟨schema?, others, heq⟩ := hplain hp
    exact mem_items_of_firstNamed statement hs h ⟨[], others, heq, rfl, fun _ hq => nomatch hq⟩

theorem caretIndex_analyzeStatement (options : Options) (statement : Span) (source : String)
    (offset : Nat) : ((mysql options).analyzeStatement statement source offset).caretIndex =
      Caret.index (.ofText options.dialect source) offset := by
  unfold analyzeStatement
  rfl

/-- A text that is not too large is served for the statement that the caret is in. -/
theorem analyze_statement {text : String} {caret : Nat} (hsize : text.utf8ByteSize ≤ maxTextBytes)
    (hcaret : resolveOffset options.offsetPolicy offset text.length = .ok caret) :
    ∃ analysis, (mysql options).analyze text offset = .ok analysis ∧
      analysis.caretIndex = Caret.index
        (.ofText options.dialect (Statement.cut text analysis.statement))
        (caret - analysis.statement.start) ∧
      analysis.references = ((mysql options).analyzeStatement analysis.statement
        (Statement.cut text analysis.statement) (caret - analysis.statement.start)).references ∧
      analysis.items = ((mysql options).analyzeStatement analysis.statement
        (Statement.cut text analysis.statement) (caret - analysis.statement.start)).items := by
  have hoffset : resolveOffset (mysql options).options.offsetPolicy offset text.length =
      .ok caret := hcaret
  have hstream : ((mysql options).parser text .query).stream = .ofText options.dialect text := rfl
  unfold analyze
  rw [if_neg (Nat.not_lt.2 hsize), hoffset]
  simp only [bind, Except.bind, pure, Except.pure, hstream]
  generalize Statement.spanAt (.ofText options.dialect text) caret = statement
  have hstatement := statement_analyzeStatement (mysql options) statement
    (Statement.cut text statement) (caret - statement.start)
  have hindex := caretIndex_analyzeStatement options statement
    (Statement.cut text statement) (caret - statement.start)
  rw [← Statement.cut]
  generalize hserved : (mysql options).analyzeStatement statement (Statement.cut text statement)
    (caret - statement.start) = served at hstatement hindex ⊢
  subst hstatement
  refine ⟨_, rfl, hindex, ?_, ?_⟩
  · dsimp only
    rw [hserved]
  · dsimp only
    rw [hserved]

end

/-- In a statement that alters a table, where the columns of that table can stand and no others, the
table is in scope just where `TABLE` is right behind `ALTER` and no other `ALTER` comes up to the
caret. Then it is one of the suggestions. -/
theorem alteredTable_found (options : Options) (text : String) (offset caret : Nat)
    (hsize : text.utf8ByteSize ≤ maxTextBytes)
    (hcaret : resolveOffset options.offsetPolicy offset text.length = .ok caret) :
    ∃ analysis, (mysql options).analyze text offset = .ok analysis ∧
      (mysql options).complete text offset = .ok analysis.items ∧
      let s := TokenStream.ofText options.dialect (Statement.cut text analysis.statement)
      let touched := s.indexAt (caret - analysis.statement.start)
      ∀ a : Alteration, a.AwaitsColumn options.dialect s analysis.caretIndex →
        ((∃ r ∈ analysis.references,
            r.kind = .table ∧ r.span = a.table.span.shift analysis.statement.start) ↔
          a.IsPlain s touched) ∧
        (a.IsPlain s touched → ⟨Name.ofText a.table.text, .table⟩ ∈ analysis.items) := by
  obtain ⟨analysis, hok, hindex, hreferences, hitems⟩ := analyze_statement hsize hcaret
  refine ⟨analysis, hok, by rw [complete, hok]; rfl, ?_⟩
  intro s touched a h
  rw [hindex] at h
  rw [hreferences, hitems]
  exact found_iff_isPlain analysis.statement rfl h

/-- The tokens of `ALTER TABLE shop.users MODIFY `. -/
def modifiedUsers : Alteration where
  alter := ⟨.keyword .ALTER, "ALTER", ⟨0, 5⟩, 0⟩
  words := []
  word := ⟨.keyword .TABLE, "TABLE", ⟨6, 11⟩, 2⟩
  qualifier := [⟨.symbol .identifier, "shop", ⟨12, 16⟩, 4⟩, ⟨.symbol .dot, ".", ⟨16, 17⟩, 5⟩]
  table := ⟨.symbol .identifier, "users", ⟨17, 22⟩, 6⟩
  rest := [⟨.keyword .MODIFY, "MODIFY", ⟨23, 29⟩, 8⟩]
  alter_kind := rfl
  words_kind := by decide
  word_kind := rfl
  qualifier_kind := .inr ⟨_, _, rfl, rfl, rfl⟩
  table_kind := rfl

theorem alteredTable_found_modifiedUsers :
    "ALTER TABLE shop.users MODIFY ".utf8ByteSize ≤ maxTextBytes ∧
      resolveOffset .clamp 30 "ALTER TABLE shop.users MODIFY ".length = .ok 30 ∧
      ∃ analysis, (mysql {}).analyze "ALTER TABLE shop.users MODIFY " 30 = .ok analysis ∧
        ⟨"users", .table⟩ ∈ analysis.items := by
  let text := "ALTER TABLE shop.users MODIFY "
  have hfacts : text.utf8ByteSize ≤ maxTextBytes ∧
      resolveOffset .clamp 30 text.length = .ok 30 ∧
      ((mysql {}).analyze text 30).map (fun r => (r.statement, r.caretIndex)) =
        .ok (⟨0, 30⟩, 9) ∧
      Statement.cut text ⟨0, 30⟩ = text ∧
      (TokenStream.ofText {} text).shownBefore 9 = modifiedUsers.tokens ∧
      (Collector.mysql {} (.ofText {} text) 9).ruleNames = [.columnInternalRef] ∧
      ∀ t ∈ (TokenStream.ofText {} text).visibleBefore
        ((TokenStream.ofText {} text).indexAt 30 + 1),
          t.kind = .keyword .ALTER → t = modifiedUsers.alter := by
    decide +kernel
  obtain ⟨hsize, hoffset, hwhere, hcut, htokens, hrules, honly⟩ := hfacts
  obtain ⟨analysis, hok, -, hfound⟩ := alteredTable_found {} text 30 30 hsize hoffset
  refine ⟨hsize, hoffset, analysis, hok, ?_⟩
  rw [hok] at hwhere
  obtain ⟨hstatement, hcaret⟩ := Prod.mk.inj (Except.ok.inj hwhere)
  rw [hstatement, hcaret, hcut] at hfound
  refine (hfound modifiedUsers ⟨htokens, ?_, ?_⟩).2 ⟨rfl, honly⟩
  · rw [hrules]
    decide
  · rw [hrules]
    decide

/-- The tokens of `ALTER TABLE users ALTER `. -/
def alteredUsers : Alteration where
  alter := ⟨.keyword .ALTER, "ALTER", ⟨0, 5⟩, 0⟩
  words := []
  word := ⟨.keyword .TABLE, "TABLE", ⟨6, 11⟩, 2⟩
  qualifier := []
  table := ⟨.symbol .identifier, "users", ⟨12, 17⟩, 4⟩
  rest := [⟨.keyword .ALTER, "ALTER", ⟨18, 23⟩, 6⟩]
  alter_kind := rfl
  words_kind := by decide
  word_kind := rfl
  qualifier_kind := .inl ⟨rfl, by decide⟩
  table_kind := rfl

/-- The change of a column that starts with `ALTER` hides the table. -/
theorem alteredUsers_missed :
    alteredUsers.AwaitsColumn {} (.ofText {} "ALTER TABLE users ALTER ")
        (Caret.index (.ofText {} "ALTER TABLE users ALTER ") 24) ∧
      ((mysql {}).complete "ALTER TABLE users ALTER " 24).map
        (fun items => decide (⟨"users", .table⟩ ∈ items)) = .ok false := by
  have hfacts : Caret.index (.ofText {} "ALTER TABLE users ALTER ") 24 = 7 ∧
      (TokenStream.ofText {} "ALTER TABLE users ALTER ").shownBefore 7 = alteredUsers.tokens ∧
      (Collector.mysql {} (.ofText {} "ALTER TABLE users ALTER ") 7).ruleNames =
        [.columnInternalRef] ∧
      ((mysql {}).complete "ALTER TABLE users ALTER " 24).map
        (fun items => decide (⟨"users", .table⟩ ∈ items)) = .ok false := by
    decide +kernel
  obtain ⟨hindex, htokens, hrules, hmissed⟩ := hfacts
  rw [hindex]
  refine ⟨⟨htokens, ?_, ?_⟩, hmissed⟩
  · rw [hrules]
    decide
  · rw [hrules]
    decide

end Engine

end SqlCompletion
