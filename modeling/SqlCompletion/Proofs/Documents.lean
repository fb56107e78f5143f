import Mathlib.Data.List.Basic
import SqlCompletion.Json.Document
import SqlCompletion.Proofs.Versions
set_option autoImplicit false

/-!
# Documents are read back

Options, catalogs, references and suggestions are written as documents from which they can be read
again (`documents_read_back`). A document is a value (`Json`), with its entries in the order in
which they were written.

A record is written field by field, and a field that is missing in the record is not written. A
reader looks each field up under its name. What it finds there is what was written, since no two
entries of an object have one name (`Json.fields?_ofEntries`). A field with a default is read as the
default where it is missing; a field that is there only if it has a value must not be written as
`null` (`withDefault?_map`).

From there on each kind of document is read back because its parts are, with a lemma for each kind
in the order in which they are made of one another: places and references, suggestions, catalogs,
options.

Numbers have to fit the words that hold them, 64 bits for places (`TableReference.Fits`) and 32 bits
for the version of a server. Documents with other fields, in other orders, or with repeated names
are read too, but nothing is said of these.
-/

namespace SqlCompletion

/-! ## Parts of documents -/

namespace Json

section

variable {α β γ : Type}

@[simp] theorem asText?_text (s : String) : asText? (.text s) = some s := rfl

@[simp] theorem asBool?_bool (b : Bool) : asBool? (.bool b) = some b := rfl

@[simp] theorem asChoice?_text (ofName? : String → Option α) (name : String) :
    asChoice? ofName? (.text name) = ofName? name := rfl

@[simp] theorem required?_some (decode : Json → Option α) (j : Json) :
    required? decode (some j) = decode j := rfl

@[simp] theorem withDefault?_some (default : α) (decode : Json → Option α) (j : Json) :
    withDefault? default decode (some j) = decode j := rfl

theorem mapM_map_eq_some {encode : α → β} {decode : β → Option γ} {value : α → γ}
    {items : List α} (h : ∀ a ∈ items, decode (encode a) = some (value a)) :
    (items.map encode).mapM decode = some (items.map value) := by
  induction items with
  | nil => rfl
  | cons a items ih =>
    have hrest := ih fun b hb => h b (List.mem_cons_of_mem a hb)
    rw [List.map_cons, List.mapM_cons, h a List.mem_cons_self, hrest]
    rfl

variable {encode : α → Json} {decode : Json → Option α}

theorem asList?_array (h : ∀ a, decode (encode a) = some a) (items : List α) :
    asList? decode (.array (items.map encode)) = some items := by
  have hitems : (items.map encode).mapM decode = some (items.map id) :=
    mapM_map_eq_some fun a _ => h a
  rwa [List.map_id] at hitems

theorem asOption?_of_ne_null {j : Json} (h : j ≠ .null) :
    asOption? decode j = (decode j).map some := by
  cases j with
  | null => exact absurd rfl h
  | _ => rfl

/-- A field that is there only if it has a value is read back, unless it is written as `null`. -/
theorem withDefault?_map (hnull : ∀ a, encode a ≠ .null) {value? : Option α}
    (h : ∀ a ∈ value?, decode (encode a) = some a) :
    withDefault? none (asOption? decode) (value?.map encode) = some value? := by
  cases value? with
  | none => rfl
  | some a =>
    rw [Option.map_some, withDefault?, asOption?_of_ne_null (hnull a), h a rfl]
    rfl

end

@[simp] theorem withDefault?_text (value? : Option String) :
    withDefault? none (asOption? asText?) (value?.map .text) = some value? :=
  withDefault?_map (fun _ => Json.noConfusion) fun _ _ => rfl

/-! ## Records -/

/-- The entries of an object that are there. -/
def present (entries : List (String × Option Json)) : List (Option String × Json) :=
  entries.filterMap fun e => e.2.map fun v => (some e.1, v)

theorem present_cons (e : String × Option Json) (entries : List (String × Option Json)) :
    present (e :: entries) = (e.2.map fun v => (some e.1, v)).toList ++ present entries := by
  obtain ⟨name, value?⟩ := e
  cases value? <;> rfl

theorem exists_of_mem_present {entries : List (String × Option Json)} {e : Option String × Json}
    (h : e ∈ present entries) : ∃ name ∈ entries.map Prod.fst, e.1 = some name := by
  obtain ⟨⟨name, value?⟩, hmem, he⟩ := List.mem_filterMap.1 h
  obtain ⟨value, -, rfl⟩ := Option.map_eq_some_iff.1 he
  exact ⟨name, List.mem_map_of_mem hmem, rfl⟩

/-- Under the name of an entry stands only what was written there, if no name is repeated. -/
theorem filter_present {entries : List (String × Option Json)} {name : String}
    {value? : Option Json} (hnodup : (entries.map Prod.fst).Nodup)
    (h : (name, value?) ∈ entries) :
    (present entries).filter (fun e => e.1 == some name) =
      (value?.map fun v => (some name, v)).toList := by
  induction entries with
  | nil => cases h
  | cons e entries ih =>
    obtain ⟨hnew, hrest⟩ := List.nodup_cons.1 hnodup
    rw [present_cons, List.filter_append]
    rcases List.mem_cons.1 h with rfl | h
    · have hnone : (present entries).filter (fun e => e.1 == some name) = [] := by
        refine List.filter_eq_nil_iff.2 fun e he hname => ?_
        obtain ⟨other, hother, heq⟩ := exists_of_mem_present he
        rw [heq, beq_iff_eq, Option.some.injEq] at hname
        exact hnew (hname ▸ hother)
      rw [hnone, List.append_nil]
      cases value? <;> simp
    · have hne : e.1 ≠ name := fun heq => hnew (heq ▸ List.mem_map_of_mem h)
      have hnone : (e.2.map fun v => (some e.1, v)).toList.filter (fun e => e.1 == some name) =
          [] := by
        cases e.2 <;> simp [hne]
      rw [hnone, List.nil_append, ih hrest h]

theorem field?_present {entries : List (String × Option Json)} {name : String}
    {value? : Option Json} (hnodup : (entries.map Prod.fst).Nodup)
    (h : (name, value?) ∈ entries) : field? (present entries) name = some value? := by
  unfold field?
  rw [filter_present hnodup h]
  cases value? <;> rfl

/-- The fields of a record are read as they were written. -/
theorem fields?_ofEntries {entries : List (String × Option Json)}
    (hnodup : (entries.map Prod.fst).Nodup) :
    fields? (entries.map Prod.fst) (ofEntries entries) = some (entries.map Prod.snd) := by
  have hkeys : (present entries).all (fun e => e.1.isSome) = true := by
    refine List.all_eq_true.2 fun e he => ?_
    obtain ⟨name, -, hname⟩ := exists_of_mem_present he
    rw [hname]
    rfl
  have hobject : fields? (entries.map Prod.fst) (ofEntries entries) =
      (entries.map Prod.fst).mapM (field? (present entries)) := if_pos hkeys
  rw [hobject]
  exact mapM_map_eq_some fun e he => field?_present hnodup he

end Json

/-! ## Places and references -/

/-- The ends of the span fit in 64 bits. -/
def Span.Fits (s : Span) : Prop := s.start < 0x10000000000000000 ∧ s.stop < 0x10000000000000000

theorem Span.ofJson?_toJson {s : Span} (h : s.Fits) : Span.ofJson? s.toJson = some s := by
  have hfields : s.toJson.fields? ["start", "end"] =
      some [some (.natural s.start), some (.natural s.stop)] := Json.fields?_ofEntries (by simp)
  unfold Span.ofJson?
  rw [hfields]
  simp [Json.asWord?, h.1, h.2]

theorem NameAt.ofJson?_toJson {key : String} (hkey : key ≠ "span") {n : NameAt}
    (h : n.span.Fits) : NameAt.ofJson? key (n.toJson key) = some n := by
  have hfields : (n.toJson key).fields? [key, "span"] =
      some [some (.text n.name), some n.span.toJson] := Json.fields?_ofEntries (by simpa using hkey)
  unfold NameAt.ofJson?
  rw [hfields]
  simp [Span.ofJson?_toJson h]

@[simp] theorem ReferenceKind.ofName?_name (k : ReferenceKind) : ofName? k.name = some k := by
  cases k <;> decide +kernel

/-- All the places of the reference fit in 64 bits. -/
structure TableReference.Fits (r : TableReference) : Prop where
  span : r.span.Fits
  named : ∀ n ∈ r.alias?, n.span.Fits
  schema : ∀ n ∈ r.schema?, n.span.Fits

theorem TableReference.ofJson?_toJson {r : TableReference} (h : r.Fits) :
    TableReference.ofJson? r.toJson = some r := by
  have hfields : r.toJson.fields? ["type", "table", "span", "aliasReference", "schemaReference"] =
      some [some (.text r.kind.name), r.table?.map .text, some r.span.toJson,
        r.alias?.map (·.toJson "alias"), r.schema?.map (·.toJson "schema")] :=
    Json.fields?_ofEntries (by simp)
  have hnamed : Json.withDefault? none (Json.asOption? (NameAt.ofJson? "alias"))
      (r.alias?.map (·.toJson "alias")) = some r.alias? :=
    Json.withDefault?_map (fun _ => Json.noConfusion) fun n hn =>
      NameAt.ofJson?_toJson (by decide) (h.named n hn)
  have hschema : Json.withDefault? none (Json.asOption? (NameAt.ofJson? "schema"))
      (r.schema?.map (·.toJson "schema")) = some r.schema? :=
    Json.withDefault?_map (fun _ => Json.noConfusion) fun n hn =>
      NameAt.ofJson?_toJson (by decide) (h.schema n hn)
  unfold TableReference.ofJson?
  rw [hfields]
  simp [Span.ofJson?_toJson h.span, hnamed, hschema]

/-! ## Suggestions -/

@[simp] theorem ItemKind.ofName?_name (k : ItemKind) : ofName? k.name = some k := by
  cases k <;> decide +kernel

theorem Item.ofJson?_toJson (i : Item) : Item.ofJson? i.toJson = some i := by
  have hfields : i.toJson.fields? ["text", "type"] =
      some [some (.text i.text), some (.text i.kind.name)] := Json.fields?_ofEntries (by simp)
  unfold Item.ofJson?
  rw [hfields]
  simp

/-! ## Catalogs -/

@[simp] theorem NameCase.ofName?_name (c : NameCase) : ofName? c.name = some c := by
  cases c <;> decide +kernel

theorem Column.ofJson?_toJson (c : Column) : Column.ofJson? c.toJson = some c := by
  have hfields : c.toJson.fields? ["name", "dataType"] =
      some [some (.text c.name), c.dataType?.map .text] := Json.fields?_ofEntries (by simp)
  unfold Column.ofJson?
  rw [hfields]
  simp

theorem CatalogTable.ofJson?_toJson (t : CatalogTable) :
    CatalogTable.ofJson? t.toJson = some t := by
  have hfields : t.toJson.fields? ["schema", "name", "columns"] =
      some [t.schema?.map .text, some (.text t.name),
        some (.array (t.columns.map Column.toJson))] := Json.fields?_ofEntries (by simp)
  unfold CatalogTable.ofJson?
  rw [hfields]
  simp [Json.asList?_array Column.ofJson?_toJson]

theorem Catalog.ofJson?_toJson (c : Catalog) : Catalog.ofJson? c.toJson = some c := by
  have hfields : c.toJson.fields? ["caseSensitivity", "tables"] =
      some [some (.text c.nameCase.name), some (.array (c.tables.map CatalogTable.toJson))] :=
    Json.fields?_ofEntries (by simp)
  unfold Catalog.ofJson?
  rw [hfields]
  simp [Json.asList?_array CatalogTable.ofJson?_toJson]

/-! ## Options -/

theorem Dialect.ofJson?_toJson {d : Dialect} (h : d.version.number < 0x100000000) :
    Dialect.ofJson? d.toJson = some d := by
  have hfields : d.toJson.fields? ["serverVersion", "sqlModes"] =
      some [some (.text d.version.text), some (.array (d.modes.map fun m => .text m.name))] :=
    Json.fields?_ofEntries (by simp)
  have hversion : Version.ofJson? (.text d.version.text) = some d.version := by
    simp [Version.ofJson?, Version.parse?_text h]
  have hmodes : Json.asList? (Json.asChoice? Mode.ofName?)
      (.array (d.modes.map fun m => .text m.name)) = some d.modes :=
    Json.asList?_array Mode.ofName?_name d.modes
  unfold Dialect.ofJson?
  rw [hfields]
  simp [hversion, hmodes]

@[simp] theorem OffsetPolicy.ofName?_name (p : OffsetPolicy) : ofName? p.name = some p := by
  cases p <;> decide +kernel

theorem Options.ofJson?_toJson {o : Options} (h : o.dialect.version.number < 0x100000000) :
    Options.ofJson? o.toJson = some o := by
  have hfields : o.toJson.fields? ["uppercaseKeywords", "parserOptions", "schema", "offsetPolicy"] =
      some [some (.bool o.uppercaseKeywords), some o.dialect.toJson,
        o.catalog?.map Catalog.toJson, some (.text o.offsetPolicy.name)] :=
    Json.fields?_ofEntries (by simp)
  have hcatalog : Json.withDefault? none (Json.asOption? Catalog.ofJson?)
      (o.catalog?.map Catalog.toJson) = some o.catalog? :=
    Json.withDefault?_map (fun _ => Json.noConfusion) fun c _ => c.ofJson?_toJson
  unfold Options.ofJson?
  rw [hfields]
  simp [hcatalog, Dialect.ofJson?_toJson h]

/-- Options, catalogs, references and suggestions are read from their documents as they were, where
the numbers in them fit the words that hold them. -/
theorem documents_read_back :
    (∀ o : Options, o.dialect.version.number < 0x100000000 →
      Options.ofJson? o.toJson = some o) ∧
    (∀ c : Catalog, Catalog.ofJson? c.toJson = some c) ∧
    (∀ r : TableReference, r.Fits → TableReference.ofJson? r.toJson = some r) ∧
    (∀ i : Item, Item.ofJson? i.toJson = some i) :=
  ⟨fun _ h => Options.ofJson?_toJson h, Catalog.ofJson?_toJson,
    fun _ h => TableReference.ofJson?_toJson h, Item.ofJson?_toJson⟩

/-- Options with the last version there is, a mode twice, and fields that are there and missing side
by side. -/
def lastVersionOptions : Options where
  uppercaseKeywords := false
  dialect := ⟨⟨0xFFFFFFFF⟩, [.pipesAsConcat, .ansiQuotes, .pipesAsConcat]⟩
  catalog? := some ⟨.upper, [⟨some "app", "users", [⟨"id", some "int"⟩, ⟨"name", none⟩]⟩,
    ⟨none, "", []⟩]⟩
  offsetPolicy := .strict

/-- A reference with an alias and no schema, at the last places there are. -/
def lastPlaceReference : TableReference where
  kind := .table
  table? := some "users"
  span := ⟨0, 0xFFFFFFFFFFFFFFFF⟩
  alias? := some ⟨"u", ⟨0xFFFFFFFFFFFFFFFF, 0xFFFFFFFFFFFFFFFF⟩⟩

theorem documents_read_back_last :
    (lastVersionOptions.dialect.version.number < 0x100000000 ∧
      Options.ofJson? lastVersionOptions.toJson = some lastVersionOptions) ∧
    (lastPlaceReference.Fits ∧
      TableReference.ofJson? lastPlaceReference.toJson = some lastPlaceReference) := by
  have hversion : lastVersionOptions.dialect.version.number < 0x100000000 := by decide
  have hfits : lastPlaceReference.Fits := by
    constructor
    · exact ⟨by decide, by decide⟩
    · intro n hn
      cases hn
      exact ⟨by decide, by decide⟩
    · intro n hn
      cases hn
  exact ⟨⟨hversion, documents_read_back.1 _ hversion⟩,
    ⟨hfits, documents_read_back.2.2.1 _ hfits⟩⟩

end SqlCompletion
