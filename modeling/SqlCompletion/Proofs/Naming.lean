import SqlCompletion.Proofs.Isolation
import SqlCompletion.Proofs.TableReading
set_option autoImplicit false

/-!
# Where the names of tables are written

The places in a reference have been through three texts: the `FROM` clause that was read, the
statement that it is a part of, and the whole text. Each of these is what the next one has in a span
(`Fragment`), and a part of a part is a part (`Fragment.trans`), so the places only move by the
starts of the spans.

The main result is `references_written`: the names of every table in scope are written at their
places in the whole text, inside of the statement that is completed, and an alias is a token of a
clause that was read there. It holds of every text and offset for which a request is served, and for
every collector, since the tables in scope do not depend on what is collected.

* A statement and a clause are parts of the text that they are cut out of (`fragment_spanAt`,
  `fragment_clauseText`), and a token is a part of the text that it was read from
  (`fragment_of_mem`).
* A table in scope is read off a clause, or off the statement for the table that is altered
  (`readFrom_of_mem`), and from tokens of it (`TableReference.ReadFrom`).
* What is read off a part of the text is written in the text (`TableReference.ReadFrom.writtenIn`).

Which tables are in scope is not told here; the modules on scope levels and altered tables do that.
A name is what the characters at its place stand for, quotes and all, so nothing is said of how a
name has to be written.
-/

namespace SqlCompletion

open TokenStream (pieces charsOf laid)

/-! ## Fragments -/

/-- The text has the part in the span. -/
def Fragment (text : String) (span : Span) (part : String) : Prop :=
  ∃ before behind, text.toList = before ++ part.toList ++ behind ∧
    span = ⟨before.length, before.length + part.length⟩

namespace Fragment

variable {text part piece : String} {span inner : Span}

theorem start_le_stop (h : Fragment text span part) : span.start ≤ span.stop := by
  obtain ⟨before, behind, -, rfl⟩ := h
  exact Nat.le_add_right _ _

theorem stop_eq (h : Fragment text span part) : span.stop = span.start + part.length := by
  obtain ⟨before, behind, -, rfl⟩ := h
  rfl

theorem stop_le (h : Fragment text span part) : span.stop ≤ text.length := by
  obtain ⟨before, behind, htext, rfl⟩ := h
  have hlength := congrArg List.length htext
  simp only [List.length_append, String.length_toList] at hlength
  dsimp only
  omega

theorem cut_eq (h : Fragment text span part) : Statement.cut text span = part := by
  obtain ⟨before, behind, htext, rfl⟩ := h
  unfold Statement.cut Span.extract Span.length
  rw [htext, Nat.add_sub_cancel_left, List.append_assoc, List.drop_left, ← String.length_toList,
    List.take_left, String.ofList_toList]

theorem refl (text : String) : Fragment text ⟨0, text.length⟩ text :=
  ⟨[], [], by simp, by simp⟩

/-- A part of a part is moved by the start of the part. -/
theorem trans (h : Fragment text span part) (hinner : Fragment part inner piece) :
    Fragment text (inner.shift span.start) piece := by
  obtain ⟨before, behind, htext, rfl⟩ := h
  obtain ⟨front, back, hpart, rfl⟩ := hinner
  refine ⟨before ++ front, back ++ behind, ?_, ?_⟩
  · rw [htext, hpart]
    simp only [List.append_assoc]
  · simp only [Span.shift, List.length_append, Span.mk.injEq]
    omega

theorem stop_shift_le (h : Fragment text span part) (hinner : Fragment part inner piece) :
    (inner.shift span.start).stop ≤ span.stop := by
  have hstop := hinner.stop_le
  rw [h.stop_eq]
  simp only [Span.shift]
  omega

end Fragment

namespace TokenStream

variable {d : Dialect} {source : String} {s : TokenStream} {t : Token}

/-- Pieces that follow each other are a part of the text. -/
theorem fragment_pieces (d : Dialect) (source : String) (index count : Nat) :
    Fragment source
      ⟨(charsOf ((pieces d source.toList).take index)).length,
        (charsOf ((pieces d source.toList).take index)).length +
          (charsOf (((pieces d source.toList).drop index).take count)).length⟩
      (String.ofList (charsOf (((pieces d source.toList).drop index).take count))) := by
  refine ⟨charsOf ((pieces d source.toList).take index),
    charsOf (((pieces d source.toList).drop index).drop count), ?_, by rw [String.length_ofList]⟩
  rw [String.toList_ofList, ← charsOf_append, ← charsOf_append, List.append_assoc,
    List.take_append_drop, List.take_append_drop, charsOf_pieces]

/-- A token is the part of the text that it was read from. -/
theorem fragment_of_mem (h : t ∈ (ofText d source).tokens) : Fragment source t.span t.text := by
  rw [tokens_ofText] at h
  obtain ⟨k, hk⟩ := List.getElem?_of_mem h
  obtain ⟨p, hp, rfl⟩ := exists_of_getElem?_laid hk
  have hpiece : ((pieces d source.toList).drop k).take 1 = [p] := by
    obtain ⟨hlt, rfl⟩ := List.getElem?_eq_some_iff.1 hp
    rw [List.drop_eq_getElem_cons hlt, List.take_succ_cons, List.take_zero]
  have hfragment := fragment_pieces d source k 1
  rw [hpiece] at hfragment
  simpa using hfragment

theorem map_text_laid (index start : Nat) (ps : List (Terminal × List Char)) :
    (laid index start ps).map Token.text = ps.map fun p => String.ofList p.2 := by
  induction ps generalizing index start with
  | nil => rfl
  | cons p ps ih => rw [laid, List.map_cons, List.map_cons, ih]

/-- The text of a clause is that of its pieces. -/
theorem clauseText_eq (d : Dialect) (source : String) (index : Nat) :
    (ofText d source).clauseText index =
      String.ofList (charsOf (((pieces d source.toList).drop index).take
        (clauseLength 0 0 .invalid ((ofText d source).tokens.drop index)))) := by
  rw [← join_text_laid 0 0, map_text_laid, clauseText, clauseTokens, List.map_take, List.map_drop]
  rw [tokens_ofText, map_text_laid, List.map_take, List.map_drop, ← tokens_ofText]

/-- A clause is a part of the text, from its first token on. -/
theorem fragment_clauseText (h : t ∈ (ofText d source).tokens) :
    ∃ stop, Fragment source ⟨t.span.start, stop⟩ ((ofText d source).clauseText t.index) := by
  obtain ⟨k, hk⟩ := List.getElem?_of_mem h
  rw [tokens_ofText] at hk
  obtain ⟨p, -, rfl⟩ := exists_of_getElem?_laid hk
  rw [clauseText_eq]
  exact ⟨_, fragment_pieces d source k _⟩

/-- The statement at the caret is a part of the text. -/
theorem fragment_spanAt (d : Dialect) (text : String) {offset : Nat} (h : offset ≤ text.length) :
    Fragment text (Statement.spanAt (ofText d text) offset)
      (Statement.cut text (Statement.spanAt (ofText d text) offset)) := by
  obtain ⟨front, inside, behind, hpieces, -, -, -, hspan, -⟩ := exists_statement d text h
  have htext : text.toList = charsOf front ++ (String.ofList (charsOf inside)).toList ++
      charsOf behind := by
    rw [← charsOf_pieces d text.toList, hpieces]
    simp
  have hfragment : Fragment text (Statement.spanAt (ofText d text) offset)
      (String.ofList (charsOf inside)) := by
    refine ⟨charsOf front, charsOf behind, htext, ?_⟩
    rw [hspan, charsOf_append, List.length_append, String.length_ofList]
  rwa [hfragment.cut_eq]

theorem visible_subset (s : TokenStream) : s.visible ⊆ s.tokens := List.filter_subset_self _

theorem visibleAfter_subset (s : TokenStream) (index : Nat) : s.visibleAfter index ⊆ s.tokens :=
  fun _ ht => List.mem_of_mem_drop (List.mem_of_mem_filter ht)

end TokenStream

/-! ## Tables in scope -/

namespace Scope

variable {s : TokenStream} {t : Token}

theorem fromsBefore_subset (caretIndex level : Nat) (tokens : List Token) :
    fromsBefore caretIndex level tokens ⊆ tokens := by
  fun_induction fromsBefore caretIndex level tokens with
  | case1 => exact List.Subset.refl _
  | case2 => exact List.nil_subset _
  | case3 _ t rest _ _ ih => exact List.subset_cons_of_subset t ih
  | case4 => exact List.nil_subset _
  | case5 t rest _ _ _ _ ih => exact List.subset_cons_of_subset t ih
  | case6 _ t rest _ _ _ _ ih => exact List.cons_subset_cons t ih
  | case7 _ t rest _ _ _ _ ih => exact List.subset_cons_of_subset t ih

theorem mem_of_firstFrom? {level : Nat} {tokens : List Token}
    (h : firstFrom? level tokens = some t) : t ∈ tokens := by
  fun_induction firstFrom? level tokens with
  | case1 => cases h
  | case2 _ u rest _ ih => exact List.mem_cons_of_mem u (ih h)
  | case3 _ u rest _ _ ih => exact List.mem_cons_of_mem u (ih h)
  | case4 =>
    cases h
    exact List.mem_cons_self
  | case5 _ u rest _ _ _ ih => exact List.mem_cons_of_mem u (ih h)

theorem mem_of_get?_filter {index : Nat} {p : Token → Bool} (h : (s.get? index).filter p = some t) :
    t ∈ s.tokens :=
  List.mem_of_getElem? (Option.filter_eq_some_iff.1 h).1

theorem mem_tokens_of_leading {caretIndex : Nat} (h : t ∈ leading s caretIndex) : t ∈ s.tokens := by
  rcases List.mem_append.1 h with h | h
  · exact mem_of_get?_filter (Option.mem_toList.1 h)
  · exact s.visibleAfter_subset 0 (fromsBefore_subset _ _ _ h)

theorem mem_tokens_of_trailing? {index : Nat} (h : trailing? s index = some t) : t ∈ s.tokens := by
  unfold trailing? at h
  rw [Option.orElse_eq_orElse, Option.orElse_eq_or] at h
  rcases Option.or_eq_some_iff.1 h with h | ⟨-, h⟩
  · exact mem_of_get?_filter h
  · exact s.visibleAfter_subset index (mem_of_firstFrom? h)

/-- What stands behind `ALTER` is read off the tokens there, without an alias. -/
theorem drawnFrom_tableBehindAlter {tokens : List Token} {r : TableReference}
    (h : r ∈ tableBehindAlter tokens) : r.DrawnFrom tokens ∧ r.alias? = none := by
  unfold tableBehindAlter at h
  split at h
  · rename_i word first rest
    have hfirst : first ∈ word :: first :: rest := by simp
    have halone : (TableReference.ofTable (FromClause.nameOf first) none).DrawnFrom
        (word :: first :: rest) :=
      FromClause.drawnFrom_ofTable hfirst none fun _ hn => nomatch hn
    split at h
    · dsimp only at h
      split at h
      · rename_i point table more
        split at h
        · rcases List.mem_cons.1 h with rfl | h
          · refine ⟨FromClause.drawnFrom_ofTable (by simp) (some first) ?_, rfl⟩
            intro t ht
            rwa [← Option.some.inj ht]
          · obtain rfl := List.mem_singleton.1 h
            exact ⟨{ table := fun hn => nomatch hn
                     schemaAlone := fun _ => ⟨rfl, rfl, _, rfl, rfl⟩
                     schema := fun n hn => ⟨first, hfirst, (Option.some.inj hn).symm⟩
                     named := fun _ hn => nomatch hn }, rfl⟩
        · obtain rfl := List.mem_singleton.1 h
          exact ⟨halone, rfl⟩
      · obtain rfl := List.mem_singleton.1 h
        exact ⟨halone, rfl⟩
    · cases h
  · cases h

theorem drawnFrom_altered {index : Nat} {r : TableReference} (h : r ∈ altered s index) :
    r.DrawnFrom s.tokens ∧ r.alias? = none := by
  unfold altered at h
  split at h
  · cases h
  · obtain ⟨hdrawn, halias⟩ := drawnFrom_tableBehindAlter h
    exact ⟨hdrawn.mono (s.visibleAfter_subset _), halias⟩

end Scope

/-! ## References read off a part of the text -/

@[simp] theorem Token.shift_zero (t : Token) : t.shift 0 = t := rfl

theorem Token.shift_shift (t : Token) (d e : Nat) : (t.shift d).shift e = t.shift (d + e) := by
  simp only [Token.shift, Span.shift_shift]

/-- The reference is drawn from the tokens of a text that the parser was asked for, moved to the
span in which the source has the text. Only in a `FROM` clause there are aliases. -/
structure TableReference.ReadFrom (d : Dialect) (source : String) (span : Span) (c : Consultation)
    (r : TableReference) : Prop where
  fragment : Fragment source span c.text
  drawn : r.DrawnFrom ((TokenStream.ofText d c.text).tokens.map (·.shift span.start))
  entry : r.alias? ≠ none → c.entry = .fromClause

namespace TableReference.ReadFrom

variable {d : Dialect} {text source : String} {span outer : Span} {c : Consultation}
  {r : TableReference}

/-- A table of a clause is read off the clause. -/
theorem of_clause {clause : String} (h : r ∈ (Parser.mysql d clause .fromClause).references) :
    r.ReadFrom d clause ⟨0, clause.length⟩
      ⟨.fromClause, clause, (Parser.mysql d clause .fromClause).references⟩ where
  fragment := Fragment.refl clause
  drawn := by
    have hdrawn : r.DrawnFrom (TokenStream.ofText d clause).visible :=
      FromClause.drawnFrom_of_mem_tables h
    simpa using hdrawn.mono (TokenStream.visible_subset _)
  entry := fun _ => rfl

/-- The table that is altered is read off the statement. -/
theorem of_altered {index : Nat} (h : r ∈ Scope.altered (TokenStream.ofText d source) index) :
    r.ReadFrom d source ⟨0, source.length⟩ ⟨.query, source, []⟩ where
  fragment := Fragment.refl source
  drawn := by simpa using (Scope.drawnFrom_altered h).1
  entry := fun halias => absurd (Scope.drawnFrom_altered h).2 halias

/-- The source is a part of a text. -/
theorem shift (h : r.ReadFrom d source span c) (houter : Fragment text outer source) :
    (r.shift outer.start).ReadFrom d text (span.shift outer.start) c where
  fragment := houter.trans h.fragment
  drawn := by
    have hmoved := h.drawn.shift outer.start
    simp only [List.map_map, Function.comp_def, Token.shift_shift] at hmoved
    exact hmoved
  entry := by
    intro halias
    refine h.entry fun hnone => halias ?_
    exact congrArg (Option.map _) hnone

/-- The tokens that the reference is drawn from are parts of the source, inside of the span. -/
theorem fragment_of_mem (h : r.ReadFrom d source span c) {t : Token}
    (ht : t ∈ (TokenStream.ofText d c.text).tokens.map (·.shift span.start)) :
    Fragment source t.span t.text ∧ span.start ≤ t.span.start ∧ t.span.stop ≤ span.stop := by
  obtain ⟨u, hu, rfl⟩ := List.mem_map.1 ht
  have hinner := TokenStream.fragment_of_mem hu
  exact ⟨h.fragment.trans hinner, Nat.le_add_left _ _, h.fragment.stop_shift_le hinner⟩

end TableReference.ReadFrom

/-! ## The request -/

namespace Engine

variable {options : Options} {collector : Collector} {s : TokenStream} {caretIndex touched : Nat}

theorem mem_tokens_of_clauseStarts {need : Option Need} {t : Token}
    (h : t ∈ clauseStarts s caretIndex touched need) : t ∈ s.tokens := by
  unfold clauseStarts at h
  split at h
  · rcases List.mem_append.1 h with h | h
    · exact Scope.mem_tokens_of_leading h
    · exact Scope.mem_tokens_of_trailing? (Option.mem_toList.1 h)
  · cases h
  · cases h

/-- What the parser is asked for to serve a request for a statement. -/
theorem consultations_analyzeStatement (e : Engine) (statement : Span) (text : String)
    (offset : Nat) : ∃ caretIndex touched need,
      (e.analyzeStatement statement text offset).references =
        (e.tablesInScope (e.parser text .query).stream caretIndex touched need).map
          (·.shift statement.start) ∧
      (e.analyzeStatement statement text offset).consultations =
        ⟨.query, text, (e.parser text .query).references⟩ ::
          (clauseStarts (e.parser text .query).stream caretIndex touched need).map fun t =>
            ⟨.fromClause, (e.parser text .query).stream.clauseText t.index,
              (e.parser ((e.parser text .query).stream.clauseText t.index)
                .fromClause).references⟩ :=
  ⟨_, _, _, rfl, rfl⟩

/-- A table in scope is read off the statement or off one of its clauses. -/
theorem readFrom_of_mem (options : Options) (collector : Collector) (statement : Span)
    (source : String) (offset : Nat) {r : TableReference}
    (h : r ∈ ((withCollector options collector).analyzeStatement statement source
      offset).references) :
    ∃ c ∈ ((withCollector options collector).analyzeStatement statement source
        offset).consultations,
      ∃ span r', TableReference.ReadFrom options.dialect source span c r' ∧
        r = r'.shift statement.start := by
  have hstream : ((withCollector options collector).parser source .query).stream =
      .ofText options.dialect source := rfl
  obtain ⟨caretIndex, touched, need, hreferences, hconsultations⟩ :=
    consultations_analyzeStatement (withCollector options collector) statement source offset
  rw [hreferences, hstream] at h
  rw [hconsultations, hstream]
  obtain ⟨r, hr, rfl⟩ := List.mem_map.1 h
  unfold tablesInScope at hr
  split at hr
  · obtain ⟨t, ht, hr⟩ := List.mem_flatMap.1 hr
    obtain ⟨table, htable, rfl⟩ := List.mem_map.1 hr
    obtain ⟨stop, hclause⟩ := TokenStream.fragment_clauseText (mem_tokens_of_clauseStarts ht)
    have hread : table.ReadFrom options.dialect _ _ _ := .of_clause htable
    exact ⟨_, List.mem_cons_of_mem _ (List.mem_map_of_mem ht), _, _, hread.shift hclause, rfl⟩
  · exact ⟨_, List.mem_cons_self, _, r, .of_altered hr, rfl⟩
  · cases hr

theorem resolveOffset_le {policy : OffsetPolicy} {offset length caret : Nat}
    (h : resolveOffset policy offset length = .ok caret) : caret ≤ length := by
  unfold resolveOffset at h
  split at h
  · cases h
    assumption
  · split at h
    · cases h
      exact Nat.le_refl _
    · cases h

/-- A request that is served is served for the statement at the caret. -/
theorem exists_of_analyze {text : String} {offset : Nat} {analysis : Analysis}
    (h : (withCollector options collector).analyze text offset = .ok analysis) :
    ∃ caret ≤ text.length, ∃ statement,
      statement = Statement.spanAt (.ofText options.dialect text) caret ∧
      analysis = { (withCollector options collector).analyzeStatement statement
          (Statement.cut text statement) (caret - statement.start) with
        consultations := ⟨.query, text, []⟩ ::
          ((withCollector options collector).analyzeStatement statement
            (Statement.cut text statement) (caret - statement.start)).consultations } := by
  unfold analyze at h
  split at h
  · cases h
  · cases hcaret : resolveOffset (withCollector options collector).options.offsetPolicy offset
      text.length with
    | error e =>
      rw [hcaret] at h
      cases h
    | ok caret =>
      rw [hcaret] at h
      cases h
      exact ⟨caret, resolveOffset_le hcaret, _, rfl, rfl⟩

/-- A table in scope is read off a text inside of the statement that the parser was asked for. -/
theorem exists_readFrom {text : String} {offset : Nat} {analysis : Analysis}
    (h : (withCollector options collector).analyze text offset = .ok analysis)
    {r : TableReference} (hr : r ∈ analysis.references) :
    ∃ c ∈ analysis.consultations, ∃ span, r.ReadFrom options.dialect text span c ∧
      analysis.statement.start ≤ span.start ∧ span.stop ≤ analysis.statement.stop := by
  obtain ⟨caret, hcaret, statement, hstatement, rfl⟩ := exists_of_analyze h
  have hcut := TokenStream.fragment_spanAt options.dialect text hcaret
  rw [← hstatement] at hcut
  obtain ⟨c, hc, span, r, hread, rfl⟩ := readFrom_of_mem options collector statement
    (Statement.cut text statement) (caret - statement.start) hr
  exact ⟨c, List.mem_cons_of_mem _ hc, _, hread.shift hcut, Nat.le_add_left _ _,
    hcut.stop_shift_le hread.fragment⟩

end Engine

/-! ## Names in the text -/

/-- The name is what the characters at its place stand for, and its place is inside of a span. -/
structure NameAt.WrittenIn (text : String) (within : Span) (read : String → String) (n : NameAt) :
    Prop where
  start : within.start ≤ n.span.start
  proper : n.span.start ≤ n.span.stop
  stop : n.span.stop ≤ within.stop
  name : n.name = read (Statement.cut text n.span)

/-- All names of the reference are written in the text, inside of a span. A reference to a schema
alone stands where the schema does. -/
structure TableReference.WrittenIn (text : String) (within : Span) (r : TableReference) : Prop where
  table : r.kind = .table → ∃ name, r.table? = some name ∧
    NameAt.WrittenIn text within Name.ofText ⟨name, r.span⟩
  schemaAlone : r.kind = .schema →
    r.table? = none ∧ r.alias? = none ∧ ∃ n, r.schema? = some n ∧ r.span = n.span
  schema : ∀ n, r.schema? = some n → n.WrittenIn text within Name.ofText
  named : ∀ n, r.alias? = some n → n.WrittenIn text within Name.ofAliasText

/-- The name was read from a token that is taken for an alias in a `FROM` clause, which the text has
from `start` on: the place of the name is that of the token, and the text has the token there. -/
structure NameAt.AliasIn (d : Dialect) (text : String) (clause : Consultation) (start : Nat)
    (n : NameAt) : Prop where
  entry : clause.entry = .fromClause
  inText : Statement.cut text ⟨start, start + clause.text.length⟩ = clause.text
  token : ∃ t ∈ (TokenStream.ofText d clause.text).tokens, FromClause.isAlias true t.kind = true ∧
    n.name = Name.ofAliasText t.text ∧ n.span = t.span.shift start ∧
    Statement.cut text n.span = t.text

namespace TableReference.ReadFrom

variable {d : Dialect} {text : String} {span within : Span} {c : Consultation} {r : TableReference}

section

variable (h : r.ReadFrom d text span c) (hstart : within.start ≤ span.start)
  (hstop : span.stop ≤ within.stop)

include h hstart hstop

theorem writtenIn_of_mem {t : Token} (read : String → String)
    (ht : t ∈ (TokenStream.ofText d c.text).tokens.map (·.shift span.start)) :
    NameAt.WrittenIn text within read ⟨read t.text, t.span⟩ := by
  obtain ⟨hfragment, hafter, hbefore⟩ := h.fragment_of_mem ht
  exact ⟨hstart.trans hafter, hfragment.start_le_stop, hbefore.trans hstop,
    congrArg read hfragment.cut_eq.symm⟩

/-- What is read off a part of the text is written in the text. -/
theorem writtenIn : r.WrittenIn text within where
  table := by
    intro hkind
    obtain ⟨t, ht, htable, hspan⟩ := h.drawn.table hkind
    exact ⟨_, htable, hspan ▸ h.writtenIn_of_mem hstart hstop Name.ofText ht⟩
  schemaAlone := h.drawn.schemaAlone
  schema := by
    intro n hn
    obtain ⟨t, ht, rfl⟩ := h.drawn.schema n hn
    exact h.writtenIn_of_mem hstart hstop Name.ofText ht
  named := by
    intro n hn
    obtain ⟨t, ht, -, rfl⟩ := h.drawn.named n hn
    exact h.writtenIn_of_mem hstart hstop Name.ofAliasText ht

end

theorem aliasIn (h : r.ReadFrom d text span c) {n : NameAt} (hn : r.alias? = some n) :
    n.AliasIn d text c span.start := by
  obtain ⟨t, ht, halias, rfl⟩ := h.drawn.named n hn
  have hcut := (h.fragment_of_mem ht).1.cut_eq
  obtain ⟨u, hu, rfl⟩ := List.mem_map.1 ht
  refine ⟨h.entry (by simp [hn]), ?_, u, hu, halias, rfl, rfl, hcut⟩
  rw [← h.fragment.stop_eq]
  exact h.fragment.cut_eq

end TableReference.ReadFrom

namespace Engine

variable {options : Options} {collector : Collector}

/-- Whatever the collector is, the names of a table in scope are written in the whole text at their
places, inside of the statement that is completed, and an alias is a token of a `FROM` clause that
was read there. -/
theorem references_written {text : String} {offset : Nat} {analysis : Analysis}
    (h : (withCollector options collector).analyze text offset = .ok analysis)
    {r : TableReference} (hr : r ∈ analysis.references) :
    r.WrittenIn text analysis.statement ∧
      ∀ n, r.alias? = some n → ∃ clause ∈ analysis.consultations, ∃ start,
        n.AliasIn options.dialect text clause start := by
  obtain ⟨c, hc, span, hread, hstart, hstop⟩ := exists_readFrom h hr
  exact ⟨hread.writtenIn hstart hstop, fun n hn => ⟨c, hc, span.start, hread.aliasIn hn⟩⟩

/-- The second statement of a text starts behind a quoted semicolon and a letter of two bytes. Its
table has a quoted name, a schema with such a letter and a quoted alias. -/
theorem references_written_quotedNames :
    ∃ analysis r,
      (mysql {}).analyze "SELECT 'é;'; SELECT  FROM dé.`a``b` AS 'x'" 20 = .ok analysis ∧
      analysis.statement = ⟨12, 42⟩ ∧ r ∈ analysis.references ∧
      r = ⟨.table, some "a`b", ⟨29, 35⟩, some ⟨"x", ⟨39, 42⟩⟩, some ⟨"dé", ⟨26, 28⟩⟩⟩ ∧
      r.WrittenIn "SELECT 'é;'; SELECT  FROM dé.`a``b` AS 'x'" ⟨12, 42⟩ ∧
      ∃ clause ∈ analysis.consultations, ∃ start, NameAt.AliasIn {}
        "SELECT 'é;'; SELECT  FROM dé.`a``b` AS 'x'" clause start ⟨"x", ⟨39, 42⟩⟩ := by
  have hserved : ((mysql {}).analyze "SELECT 'é;'; SELECT  FROM dé.`a``b` AS 'x'" 20).map
      (fun analysis => (analysis.statement, analysis.references)) = .ok (⟨12, 42⟩,
        [⟨.table, some "a`b", ⟨29, 35⟩, some ⟨"x", ⟨39, 42⟩⟩, some ⟨"dé", ⟨26, 28⟩⟩⟩]) := by
    decide +kernel
  cases hok : (mysql {}).analyze "SELECT 'é;'; SELECT  FROM dé.`a``b` AS 'x'" 20 with
  | error e =>
    rw [hok] at hserved
    cases hserved
  | ok analysis =>
    rw [hok] at hserved
    obtain ⟨hstatement, hreferences⟩ := Prod.mk.inj (Except.ok.inj hserved)
    have hmem : ⟨.table, some "a`b", ⟨29, 35⟩, some ⟨"x", ⟨39, 42⟩⟩, some ⟨"dé", ⟨26, 28⟩⟩⟩ ∈
        analysis.references := by
      rw [hreferences]
      exact List.mem_singleton.2 rfl
    obtain ⟨hwritten, halias⟩ :=
      references_written (show (withCollector {} (.mysql {})).analyze _ 20 = .ok analysis from hok)
        hmem
    rw [hstatement] at hwritten
    exact ⟨analysis, _, rfl, hstatement, hmem, rfl, hwritten, halias _ rfl⟩

end Engine

end SqlCompletion
