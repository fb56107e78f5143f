import Mathlib.Data.List.Basic
import Mathlib.Data.List.Induction
import Mathlib.Data.List.Nodup
import SqlCompletion.Proofs.Isolation
set_option autoImplicit false

/-!
# Where suggestions come from

Every answer is accounted for by what the collector reports and by the tables in scope
(`complete_accounted`). It has three blocks, of keywords, of columns and of tables, in this order
and with nothing in it twice; the keywords are made of the terminals that are collected, and the
others of the catalog.

* Columns are suggested if a rule at the caret asks for them, and they are those of the table in the
  catalog that the first reference to a table names (`ColumnsOf`).
* Tables are suggested if a rule asks for them, all of the catalog; and where a rule asks for the
  columns of the table that is altered, its reference is used (`TablesOf`).

This is told without the order in which an answer is put together: as names that occur first among
some others (`FirstOccurrences`), where it does not matter how many of the rules at the caret bring
the same names (`firstOccurrences_flatMap`). No item of one block is an item of another
(`Item.nodup_blocks`), since they are of different kinds.

The parser and the collector are parameters, so nothing here depends on a grammar. Which terminals
and rules are collected, and which tables are in scope, are questions of other modules. The order of
names in a block is that of the catalog, with a name that comes again left out.
-/

namespace SqlCompletion

/-! ## First occurrences -/

/-- The texts are all those among some names, each once, in the order in which the names have them
first. -/
structure FirstOccurrences (names texts : List String) : Prop where
  mem_iff : ∀ x, x ∈ texts ↔ x ∈ names
  ordered : texts.Pairwise fun x y => names.idxOf x < names.idxOf y

theorem eraseDups_concat (names : List String) (x : String) :
    (names ++ [x]).eraseDups = names.eraseDups ++ if x ∈ names then [] else [x] := by
  rw [List.eraseDups_append]
  split
  · rename_i hmem
    simp [List.removeAll, hmem]
  · rename_i hnew
    simp [List.removeAll, hnew, List.eraseDups_cons]

theorem firstOccurrences_eraseDups (names : List String) :
    FirstOccurrences names names.eraseDups where
  mem_iff := fun _ => List.mem_eraseDups
  ordered := by
    induction names using List.reverseRecOn with
    | nil => exact List.Pairwise.nil
    | append_singleton names x ih =>
      have hkept : names.eraseDups.Pairwise
          fun a b => (names ++ [x]).idxOf a < (names ++ [x]).idxOf b := by
        refine ih.imp_of_mem fun {a b} ha hb hlt => ?_
        rw [List.mem_eraseDups] at ha hb
        rwa [List.idxOf_append_of_mem ha, List.idxOf_append_of_mem hb]
      rw [eraseDups_concat]
      split
      · rwa [List.append_nil]
      · rename_i hnew
        refine List.pairwise_append.2 ⟨hkept, List.pairwise_singleton _ _, fun a ha b hb => ?_⟩
        rw [List.mem_eraseDups] at ha
        rw [List.mem_singleton.1 hb, List.idxOf_append_of_mem ha, List.idxOf_append_of_notMem hnew]
        exact Nat.lt_of_lt_of_le (List.idxOf_lt_length_of_mem ha) (Nat.le_add_right _ _)

namespace FirstOccurrences

variable {names more texts : List String}

theorem nodup (h : FirstOccurrences names texts) : texts.Nodup := by
  refine h.ordered.imp ?_
  rintro x y hlt rfl
  exact Nat.lt_irrefl _ hlt

/-- Names that come again do not count. -/
theorem of_append (h : FirstOccurrences (names ++ more) texts) (hagain : more ⊆ names) :
    FirstOccurrences names texts where
  mem_iff := by
    intro x
    rw [h.mem_iff, List.mem_append]
    exact ⟨fun hx => hx.elim id fun hx => hagain hx, .inl⟩
  ordered := by
    have hmem : ∀ x ∈ texts, x ∈ names := fun x hx =>
      (List.mem_append.1 ((h.mem_iff x).1 hx)).elim id fun hx => hagain hx
    refine h.ordered.imp_of_mem fun {x y} hx hy hlt => ?_
    rwa [List.idxOf_append_of_mem (hmem x hx), List.idxOf_append_of_mem (hmem y hy)] at hlt

end FirstOccurrences

section

variable {α : Type} {f : α → List String} {names : List String} {rules : List α}

theorem flatMap_subset_of_bring (h : ∀ r ∈ rules, f r = [] ∨ f r = names) :
    rules.flatMap f ⊆ names := by
  intro x hx
  obtain ⟨r, hr, hx⟩ := List.mem_flatMap.1 hx
  rcases h r hr with hnone | hall
  · rw [hnone] at hx
    cases hx
  · rwa [hall] at hx

/-- However many of the rules bring the names, they count once. -/
theorem firstOccurrences_flatMap (h : ∀ r ∈ rules, f r = [] ∨ f r = names)
    (hsome : ∃ r ∈ rules, f r = names) :
    FirstOccurrences names (rules.flatMap f).eraseDups := by
  induction rules with
  | nil =>
    obtain ⟨r, hr, -⟩ := hsome
    cases hr
  | cons r rules ih =>
    have hrest : ∀ s ∈ rules, f s = [] ∨ f s = names := fun s hs => h s (List.mem_cons_of_mem r hs)
    rw [List.flatMap_cons]
    by_cases hall : f r = names
    · rw [hall]
      exact (firstOccurrences_eraseDups _).of_append (flatMap_subset_of_bring hrest)
    · have hnone : f r = [] := (h r List.mem_cons_self).resolve_right hall
      rw [hnone, List.nil_append]
      refine ih hrest ?_
      obtain ⟨s, hs, hbrings⟩ := hsome
      rcases List.mem_cons.1 hs with rfl | hs
      · exact absurd hbrings hall
      · exact ⟨s, hs, hbrings⟩

end

/-! ## References and the catalog -/

/-- Of some references the first one that names a table is this one, and the table has this
name. -/
def FirstNamed (references : List TableReference) (name : String) (r : TableReference) : Prop :=
  ∃ before after, references = before ++ r :: after ∧ r.table? = some name ∧
    ∀ q ∈ before, q.table? = none

namespace Binding

variable {references : List TableReference} {catalog? : Option Catalog}

theorem firstTable?_eq_some_iff {name : String} {r : TableReference} :
    firstTable? references = some (name, r) ↔ FirstNamed references name r := by
  unfold firstTable? FirstNamed
  simp only [List.findSome?_eq_some_iff, Option.map_eq_some_iff, Prod.mk.injEq,
    Option.map_eq_none_iff]
  constructor
  · rintro ⟨before, q, after, heq, ⟨n, hn, rfl, rfl⟩, hbefore⟩
    exact ⟨before, after, heq, hn, hbefore⟩
  · rintro ⟨before, after, heq, hname, hbefore⟩
    exact ⟨before, r, after, heq, ⟨name, hname, rfl, rfl⟩, hbefore⟩

/-- The catalog knows the table that is meant by the first reference that names one. -/
def Knows (catalog? : Option Catalog) (references : List TableReference) (t : CatalogTable) :
    Prop :=
  ∃ catalog name r, catalog? = some catalog ∧ FirstNamed references name r ∧
    catalog.findTable? name r.schemaName? = some t

theorem boundTable?_eq_some_iff {t : CatalogTable} :
    boundTable? catalog? references = some t ↔ Knows catalog? references t := by
  unfold boundTable? Knows
  simp only [Option.bind_eq_bind, Option.bind_eq_some_iff, ← firstTable?_eq_some_iff]
  constructor
  · rintro ⟨catalog, hcatalog, ⟨name, r⟩, hfirst, hfind⟩
    exact ⟨catalog, name, r, hcatalog, hfirst, hfind⟩
  · rintro ⟨catalog, name, r, hcatalog, hfirst, hfind⟩
    exact ⟨catalog, hcatalog, (name, r), hfirst, hfind⟩

end Binding

/-! ## Answers -/

/-- What the columns of an answer are, given the rules at the caret and the tables in scope: they
are those of the table that the catalog knows, if a rule asks for columns. -/
structure ColumnsOf (catalog? : Option Catalog) (rules : List Rule)
    (references : List TableReference) (columns : List String) : Prop where
  drawn : columns = [] ∨ ∃ t, Binding.Knows catalog? references t ∧
    FirstOccurrences (t.columns.map Column.name) columns
  uncatalogued : catalog? = none → columns = []
  unasked : .columnRef ∉ rules → .tableWild ∉ rules → columns = []
  asked : .columnRef ∈ rules ∨ .tableWild ∈ rules → ∀ t, Binding.Knows catalog? references t →
    FirstOccurrences (t.columns.map Column.name) columns

/-- What the tables of an answer are: those of the catalog, if a rule asks for tables, and the one
that is altered, if a rule asks for its columns. -/
structure TablesOf (catalog? : Option Catalog) (rules : List Rule)
    (references : List TableReference) (tables : List String) : Prop where
  drawn : ∀ x ∈ tables,
    ((.tableRef ∈ rules ∨ .filterTableRef ∈ rules) ∧
      ∃ catalog, catalog? = some catalog ∧ x ∈ catalog.tableNames) ∨
    (.columnInternalRef ∈ rules ∧ ∃ r, FirstNamed references x r)
  asked : .tableRef ∈ rules ∨ .filterTableRef ∈ rules → ∀ catalog, catalog? = some catalog →
    catalog.tableNames ⊆ tables ∧
      (.columnInternalRef ∉ rules → FirstOccurrences catalog.tableNames tables)
  altered : .columnInternalRef ∈ rules → ∀ x r, FirstNamed references x r → x ∈ tables

/-- Keywords, columns and tables as suggestions, in this order. -/
def Item.blocks (keywords columns tables : List String) : List Item :=
  keywords.map (⟨·, .keyword⟩) ++ columns.map (⟨·, .column⟩) ++ tables.map (⟨·, .table⟩)

/-- The suggestions are a block of keywords, one of columns and one of tables, nothing is suggested
twice, and each block is what the candidates, the catalog and the tables in scope make it. -/
structure Accounted (o : Options) (candidates : Candidates) (references : List TableReference)
    (items : List Item) : Prop where
  nodup : items.Nodup
  blocks : ∃ keywords columns tables, items = Item.blocks keywords columns tables ∧
    FirstOccurrences (Phrase.ofCandidates o.uppercaseKeywords candidates.tokens) keywords ∧
    ColumnsOf o.catalog? candidates.ruleNames references columns ∧
    TablesOf o.catalog? candidates.ruleNames references tables

/-- No item of one block is an item of another, so there is nothing twice unless a block has it
twice. -/
theorem Item.nodup_blocks {keywords columns tables : List String} (hkeywords : keywords.Nodup)
    (hcolumns : columns.Nodup) (htables : tables.Nodup) :
    (Item.blocks keywords columns tables).Nodup := by
  have hinj : ∀ kind, Function.Injective fun x => (⟨x, kind⟩ : Item) := fun _ _ _ h =>
    congrArg Item.text h
  have hkind : ∀ {kind : ItemKind} {texts : List String},
      ∀ i ∈ texts.map fun x => (⟨x, kind⟩ : Item), i.kind = kind := by
    intro kind texts i hi
    obtain ⟨x, -, rfl⟩ := List.mem_map.1 hi
    rfl
  have hapart : ∀ {i j : Item}, i.kind ≠ j.kind → i ≠ j := fun h heq => h (congrArg Item.kind heq)
  refine List.nodup_append.2 ⟨List.nodup_append.2 ⟨hkeywords.map (hinj _), hcolumns.map (hinj _),
    fun i hi j hj => hapart ?_⟩, htables.map (hinj _), fun i hi j hj => hapart ?_⟩
  · rw [hkind i hi, hkind j hj]
    decide
  · rw [hkind j hj]
    rcases List.mem_append.1 hi with hi | hi
    · rw [hkind i hi]
      decide
    · rw [hkind i hi]
      decide

namespace Engine

variable (e : Engine) (rules : List Rule) (references : List TableReference)

theorem columnsFor_eq (r : Rule) :
    e.columnsFor references r =
      if r = .columnRef ∨ r = .tableWild then Binding.columnNames e.options.catalog? references
      else [] := by
  unfold columnsFor
  split <;> simp_all

theorem tablesFor_eq (r : Rule) :
    e.tablesFor references r =
      if r = .tableRef ∨ r = .filterTableRef then Binding.tableNames e.options.catalog?
      else if r = .columnInternalRef then ((Binding.firstTable? references).map Prod.fst).toList
      else [] := by
  unfold tablesFor
  split <;> simp_all

theorem flatMap_columnsFor_eq_nil
    (h : (.columnRef ∉ rules ∧ .tableWild ∉ rules) ∨
      Binding.boundTable? e.options.catalog? references = none) :
    rules.flatMap (e.columnsFor references) = [] := by
  refine List.flatMap_eq_nil_iff.2 fun r hr => ?_
  rw [columnsFor_eq]
  rcases h with ⟨hcolumn, hwild⟩ | hunbound
  · rw [if_neg]
    rintro (rfl | rfl)
    · exact hcolumn hr
    · exact hwild hr
  · rw [Binding.columnNames, hunbound]
    exact ite_self _

theorem firstOccurrences_columnsFor (hasks : .columnRef ∈ rules ∨ .tableWild ∈ rules)
    {t : CatalogTable} (ht : Binding.Knows e.options.catalog? references t) :
    FirstOccurrences (t.columns.map Column.name)
      (rules.flatMap (e.columnsFor references)).eraseDups := by
  have hnames : Binding.columnNames e.options.catalog? references = t.columns.map Column.name := by
    rw [Binding.columnNames, Binding.boundTable?_eq_some_iff.2 ht]
    rfl
  refine firstOccurrences_flatMap (fun r _ => ?_) ?_
  · rw [columnsFor_eq, hnames]
    split
    · exact .inr rfl
    · exact .inl rfl
  · rcases hasks with hr | hr
    · exact ⟨_, hr, hnames⟩
    · exact ⟨_, hr, hnames⟩

theorem columnsOf_suggested :
    ColumnsOf e.options.catalog? rules references
      (rules.flatMap (e.columnsFor references)).eraseDups where
  drawn := by
    by_cases hasks : .columnRef ∈ rules ∨ .tableWild ∈ rules
    · cases hbound : Binding.boundTable? e.options.catalog? references with
      | none =>
        rw [flatMap_columnsFor_eq_nil e rules references (.inr hbound)]
        exact .inl List.eraseDups_nil
      | some t =>
        have ht := Binding.boundTable?_eq_some_iff.1 hbound
        exact .inr ⟨t, ht, firstOccurrences_columnsFor e rules references hasks ht⟩
    · rw [flatMap_columnsFor_eq_nil e rules references (.inl (not_or.1 hasks))]
      exact .inl List.eraseDups_nil
  uncatalogued := by
    intro hcatalog
    have hunbound : Binding.boundTable? e.options.catalog? references = none := by
      rw [hcatalog]
      rfl
    rw [flatMap_columnsFor_eq_nil e rules references (.inr hunbound), List.eraseDups_nil]
  unasked := by
    intro hcolumn hwild
    rw [flatMap_columnsFor_eq_nil e rules references (.inl ⟨hcolumn, hwild⟩), List.eraseDups_nil]
  asked := fun hasks _ ht => firstOccurrences_columnsFor e rules references hasks ht

theorem tablesOf_suggested :
    TablesOf e.options.catalog? rules references
      (rules.flatMap (e.tablesFor references)).eraseDups where
  drawn := by
    intro x hx
    obtain ⟨r, hr, hx⟩ := List.mem_flatMap.1 (List.mem_eraseDups.1 hx)
    rw [tablesFor_eq] at hx
    split at hx
    · rename_i hasks
      left
      constructor
      · rcases hasks with rfl | rfl
        · exact .inl hr
        · exact .inr hr
      · cases hcatalog : e.options.catalog? with
        | none =>
          rw [hcatalog] at hx
          cases hx
        | some catalog =>
          rw [hcatalog] at hx
          exact ⟨catalog, rfl, hx⟩
    · split at hx
      · rename_i halters
        right
        obtain ⟨⟨name, q⟩, hq, rfl⟩ := Option.map_eq_some_iff.1 (Option.mem_toList.1 hx)
        exact ⟨halters ▸ hr, q, Binding.firstTable?_eq_some_iff.1 hq⟩
      · cases hx
  altered := by
    intro halters x r hfirst
    have hname : Binding.firstTable? references = some (x, r) :=
      Binding.firstTable?_eq_some_iff.2 hfirst
    refine List.mem_eraseDups.2 (List.mem_flatMap.2 ⟨_, halters, ?_⟩)
    simp [tablesFor, hname]
  asked := by
    intro hasks catalog hcatalog
    have hnames : Binding.tableNames e.options.catalog? = catalog.tableNames := by
      rw [hcatalog]
      rfl
    have hbrings : ∃ r ∈ rules, e.tablesFor references r = catalog.tableNames := by
      rcases hasks with hr | hr
      · exact ⟨_, hr, hnames⟩
      · exact ⟨_, hr, hnames⟩
    constructor
    · intro x hx
      obtain ⟨r, hr, hall⟩ := hbrings
      exact List.mem_eraseDups.2 (List.mem_flatMap.2 ⟨r, hr, hall ▸ hx⟩)
    · intro hunaltered
      refine firstOccurrences_flatMap (fun r hr => ?_) hbrings
      have hne : r ≠ .columnInternalRef := fun h => hunaltered (h ▸ hr)
      rw [tablesFor_eq, hnames, if_neg hne]
      split
      · exact .inr rfl
      · exact .inl rfl

theorem suggest_accounted (candidates : Candidates) :
    Accounted e.options candidates references (e.suggest candidates references) where
  nodup := Item.nodup_blocks (firstOccurrences_eraseDups _).nodup
    (firstOccurrences_eraseDups _).nodup (firstOccurrences_eraseDups _).nodup
  blocks := ⟨_, _, _, rfl, firstOccurrences_eraseDups _,
    columnsOf_suggested e candidates.ruleNames references,
    tablesOf_suggested e candidates.ruleNames references⟩

/-- What the collector reports for a request: it is asked about the tokens of the statement. -/
def reported (text : String) (analysis : Analysis) : Candidates :=
  e.collector (e.parser (Statement.cut text analysis.statement) .query).stream analysis.caretIndex

theorem items_of_analyze {text : String} {offset : Nat} {analysis : Analysis}
    (h : e.analyze text offset = .ok analysis) :
    analysis.items = e.suggest (e.reported text analysis) analysis.references := by
  unfold analyze at h
  split at h
  · cases h
  · cases hcaret : resolveOffset e.options.offsetPolicy offset text.length with
    | error _ =>
      rw [hcaret] at h
      cases h
    | ok caret =>
      rw [hcaret] at h
      cases h
      rfl

/-- Every answer is accounted for by what the collector reports and by the tables in scope, whatever
the parser and the collector are. -/
theorem complete_accounted (text : String) (offset : Nat) (items : List Item)
    (h : e.complete text offset = .ok items) :
    ∃ analysis, e.analyze text offset = .ok analysis ∧ analysis.items = items ∧
      Accounted e.options (e.reported text analysis) analysis.references items := by
  unfold complete at h
  cases hanalysis : e.analyze text offset with
  | error _ =>
    rw [hanalysis] at h
    cases h
  | ok analysis =>
    rw [hanalysis] at h
    cases h
    refine ⟨analysis, rfl, rfl, ?_⟩
    rw [items_of_analyze e hanalysis]
    exact suggest_accounted e analysis.references (e.reported text analysis)

/-- A catalog that has a table and a column twice, and a collector for which several rules ask for
the same tables and columns. -/
def repeatedNames : Engine :=
  withCollector
    { catalog? := some { tables :=
      [⟨none, "orders", [⟨"total", none⟩]⟩,
       ⟨none, "users", [⟨"id", none⟩, ⟨"name", none⟩, ⟨"id", none⟩]⟩,
       ⟨none, "orders", []⟩] } }
    fun _ _ =>
      { tokens := [(.keyword .DISTINCT, [])]
        rules := [(.tableWild, []), (.filterTableRef, []), (.columnRef, []), (.tableRef, [])] }

theorem complete_accounted_repeatedNames :
    repeatedNames.complete "SELECT  FROM users u" 7 =
        .ok (Item.blocks ["DISTINCT", "DISTINCTROW"] ["id", "name"] ["orders", "users"]) ∧
      ∃ analysis, repeatedNames.analyze "SELECT  FROM users u" 7 = .ok analysis ∧
        Accounted repeatedNames.options
          (repeatedNames.reported "SELECT  FROM users u" analysis) analysis.references
          (Item.blocks ["DISTINCT", "DISTINCTROW"] ["id", "name"] ["orders", "users"]) := by
  have hitems : repeatedNames.complete "SELECT  FROM users u" 7 =
      .ok (Item.blocks ["DISTINCT", "DISTINCTROW"] ["id", "name"] ["orders", "users"]) := by
    decide +kernel
  obtain ⟨analysis, hanalysis, -, haccounted⟩ := complete_accounted repeatedNames _ _ _ hitems
  exact ⟨hitems, analysis, hanalysis, haccounted⟩

end Engine

end SqlCompletion
