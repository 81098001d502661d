/-
# A configuration is read from its texts

A configuration is written as an object of its settings. The object can say less, where
a setting has its default, and more, where a key is no setting's; and its entries can
stand in any order. Every text of such an object, however it is laid out and its strings
are written, is read as the configuration (`Config.read_of_isText`).

The reader fills in one field after the other. After any of its entries the settings are
those of the configuration for the fields that it has met, and none for the others
(`Config.Settings.partly`); so the order of the entries does not matter, and neither do
entries that no field has.

Key definitions: `Config.entries`, `Config.GivenBy`, `Config.Settings.partly`.
Key theorems: `Config.Settings.readEntry_of_spells`,
`Config.Settings.readEntries_of_spells`, `Config.Settings.config_partly`,
`Config.read_of_isText`.
-/
import FetchClients.Config.Read
import FetchClients.Proofs.JsonReading

namespace FetchClients

/-- The entries of an object. -/
def Json.Document.entries : Json.Document → List (String × Json.Document)
  | obj entries => entries
  | _ => []

namespace Config

open Json (Document Reads Spells IsGap EndsNumber)

variable {c : Config} {fields : List Field} {field : Field}

/-! ### The object of a configuration -/

/-- The entries of the object that a configuration is written as. -/
def entries (c : Config) : List (String × Document) :=
  c.toJson.toDocument.entries

/-- Entries that give a configuration: without some that have their default, with others whose keys
are no fields', in any order. -/
def GivenBy (c : Config) (es : List (String × Document)) : Prop :=
  ∃ (removed : List String) (added : List (String × Document)),
    (∀ e ∈ c.entries, e.1 ∈ removed → e ∈ default.entries) ∧
    (∀ e ∈ added, e.1 ∉ Field.all.map Field.name) ∧
    es.Perm (c.entries.filter (fun e => e.1 ∉ removed) ++ added)

/-- The value of a field, if the configuration has one. -/
def Field.value? (c : Config) : Field → Option Document
  | includes => some (.arr (c.includes.map .str))
  | ignores => some (.arr (c.ignores.map .str))
  | ignoreTestFiles => some (.bool c.ignoreTestFiles)
  | markerKey => some (.str c.markerKey)
  | serviceNameKey => some (.str c.serviceNameKey)
  | pathKey => some (.str c.pathKey)
  | outputDir => c.outputDir.map .str

/-- The fields that entries are about. -/
def fieldsOf (es : List (String × Document)) : List Field :=
  es.filterMap fun e => Field.ofName? e.1

theorem fieldsOf_cons (e : String × Document) (es : List (String × Document)) :
    fieldsOf (e :: es) = (Field.ofName? e.1).toList ++ fieldsOf es := by
  cases hfield : Field.ofName? e.1 <;> simp [fieldsOf, hfield]

theorem Field.ofName?_name (field : Field) : ofName? field.name = some field := by
  cases field <;> decide

theorem Field.ofName?_eq_none_iff {key : String} :
    ofName? key = none ↔ key ∉ all.map name := by
  simp [ofName?, List.find?_eq_none]

theorem entries_eq (c : Config) :
    c.entries = Field.all.filterMap fun field =>
      (field.value? c).map fun value => (field.name, value) := by
  cases hdir : c.outputDir <;>
    simp [entries, toJson, Document.entries, hdir, Field.all, Field.value?, Field.name,
      Json.toDocument, Json.entriesToDocuments, Json.itemsToDocuments_eq_map, Function.comp_def]

theorem mem_entries_iff {e : String × Document} :
    e ∈ c.entries ↔ ∃ field : Field, field.name = e.1 ∧ field.value? c = some e.2 := by
  have hall : ∀ field : Field, field ∈ Field.all := by intro field; cases field <;> decide
  simp only [entries_eq, List.mem_filterMap, hall, true_and, Option.map_eq_some_iff]
  constructor
  · rintro ⟨field, value, hvalue, rfl⟩
    exact ⟨field, rfl, hvalue⟩
  · rintro ⟨field, hname, hvalue⟩
    exact ⟨field, e.2, hvalue, by rw [hname]⟩

theorem fieldsOf_entries (c : Config) :
    fieldsOf c.entries = Field.all.filter fun field => (field.value? c).isSome := by
  rw [entries_eq, fieldsOf, List.filterMap_filterMap, ← List.filterMap_eq_filter]
  refine List.filterMap_congr fun field _ => ?_
  cases hvalue : field.value? c <;> simp [Field.ofName?_name, Option.guard, hvalue]

/-- Fields without a value have none by default either. -/
theorem value?_default_of_none (h : field.value? c = none) : field.value? default = none := by
  cases field <;> first | rfl | cases h

namespace GivenBy

variable {es : List (String × Document)} (h : c.GivenBy es)
include h

/-- What is given for a field is the value that the configuration has. -/
theorem value? : ∀ e ∈ es, ∀ field ∈ Field.ofName? e.1, field.value? c = some e.2 := by
  obtain ⟨removed, added, -, hadded, hperm⟩ := h
  intro e he field hfield
  rcases List.mem_append.mp (hperm.mem_iff.mp he) with hkept | hnew
  · obtain ⟨other, hname, hvalue⟩ := mem_entries_iff.mp (List.mem_filter.mp hkept).1
    rw [← hname, Field.ofName?_name] at hfield
    cases hfield
    exact hvalue
  · rw [Field.ofName?_eq_none_iff.mpr (hadded e hnew)] at hfield
    cases hfield

theorem nodup_fieldsOf : (fieldsOf es).Nodup := by
  obtain ⟨removed, added, -, hadded, hperm⟩ := h
  have hnone : added.filterMap (fun e => Field.ofName? e.1) = [] :=
    List.filterMap_eq_nil_iff.mpr fun e he => Field.ofName?_eq_none_iff.mpr (hadded e he)
  have hkept : (fieldsOf (c.entries.filter fun e => e.1 ∉ removed)).Sublist (fieldsOf c.entries) :=
    List.filter_sublist.filterMap _
  have hall : (fieldsOf c.entries).Nodup := by
    rw [fieldsOf_entries]
    exact List.Nodup.sublist List.filter_sublist (by decide)
  have hfields := hperm.filterMap fun e => Field.ofName? e.1
  rw [List.filterMap_append, hnone, List.append_nil] at hfields
  exact hfields.nodup_iff.mpr (hall.sublist hkept)

/-- A field for which nothing is given has its default. -/
theorem value?_eq_default (hfield : field ∉ fieldsOf es) :
    field.value? c = field.value? default := by
  obtain ⟨removed, added, hremoved, -, hperm⟩ := h
  cases hvalue : field.value? c with
  | none => exact (value?_default_of_none hvalue).symm
  | some value =>
    have hmem : (field.name, value) ∈ c.entries := mem_entries_iff.mpr ⟨field, rfl, hvalue⟩
    by_cases hgone : field.name ∈ removed
    · obtain ⟨other, hname, hdefault⟩ := mem_entries_iff.mp (hremoved _ hmem hgone)
      obtain rfl : other = field := by
        have hsome := Field.ofName?_name other
        rw [hname, Field.ofName?_name] at hsome
        exact (Option.some.inj hsome).symm
      exact hdefault.symm
    · have hkept : (field.name, value) ∈ es := hperm.mem_iff.mpr
        (List.mem_append_left _ (List.mem_filter.mpr ⟨hmem, by simpa using hgone⟩))
      exact absurd (List.mem_filterMap.mpr ⟨_, hkept, Field.ofName?_name field⟩) hfield

end GivenBy

/-! ### Settings that are read so far -/

namespace Settings

/-- The settings of a configuration for some fields, and none for the others. -/
def partly (c : Config) (fields : List Field) : Settings where
  includes := if .includes ∈ fields then some c.includes else .none
  ignores := if .ignores ∈ fields then some c.ignores else .none
  ignoreTestFiles := if .ignoreTestFiles ∈ fields then some c.ignoreTestFiles else .none
  markerKey := if .markerKey ∈ fields then some c.markerKey else .none
  serviceNameKey := if .serviceNameKey ∈ fields then some c.serviceNameKey else .none
  pathKey := if .pathKey ∈ fields then some c.pathKey else .none
  outputDir := if .outputDir ∈ fields then some c.outputDir else .none

theorem partly_nil (c : Config) : partly c [] = none := by
  simp [partly, none]

/-- The settings with a field as a configuration has it. -/
def fill (s : Settings) (c : Config) : Field → Settings
  | .includes => { s with includes := some c.includes }
  | .ignores => { s with ignores := some c.ignores }
  | .ignoreTestFiles => { s with ignoreTestFiles := some c.ignoreTestFiles }
  | .markerKey => { s with markerKey := some c.markerKey }
  | .serviceNameKey => { s with serviceNameKey := some c.serviceNameKey }
  | .pathKey => { s with pathKey := some c.pathKey }
  | .outputDir => { s with outputDir := some c.outputDir }

theorem fill_partly (c : Config) (fields : List Field) (field : Field) :
    (partly c fields).fill c field = partly c (field :: fields) := by
  cases field <;> simp [partly, fill]

theorem has_partly (c : Config) (fields : List Field) (field : Field) :
    (partly c fields).has field = decide (field ∈ fields) := by
  cases field <;> simp only [partly, has] <;> split <;> simp [*]

theorem getD_ite {α : Type} {p : Prop} [Decidable p] {a b : α} (h : ¬p → a = b) :
    (if p then some a else .none).getD b = a := by
  by_cases hp : p
  · simp [hp]
  · simp [hp, h hp]

theorem eq_of_map_str {texts others : List String} (h : texts.map Document.str = others.map .str) :
    texts = others :=
  List.map_injective_iff.mpr (fun _ _ heq => by cases heq; rfl) h

/-- Fields that are not set have the values of the configuration if those are the defaults. -/
theorem config_partly (h : ∀ field ∉ fields, field.value? c = field.value? default) :
    (partly c fields).config = c := by
  have hdir : .outputDir ∉ fields → c.outputDir = default.outputDir := by
    intro hfield
    cases hset : c.outputDir with
    | none => rfl
    | some dir =>
      have hvalue := h .outputDir hfield
      simp [Field.value?, hset, default] at hvalue
  cases c with
  | mk includes ignores ignoreTestFiles markerKey serviceNameKey pathKey outputDir =>
    simp only [config, partly, Config.mk.injEq]
    refine ⟨getD_ite fun hf => ?_, getD_ite fun hf => ?_, getD_ite fun hf => ?_,
      getD_ite fun hf => ?_, getD_ite fun hf => ?_, getD_ite fun hf => ?_, getD_ite hdir⟩
    · exact eq_of_map_str (by simpa [Field.value?] using h .includes hf)
    · exact eq_of_map_str (by simpa [Field.value?] using h .ignores hf)
    · simpa [Field.value?] using h .ignoreTestFiles hf
    · simpa [Field.value?] using h .markerKey hf
    · simpa [Field.value?] using h .serviceNameKey hf
    · simpa [Field.value?] using h .pathKey hf

variable {α β : Type}

theorem reads_map {reader : Json.Reader α} {v : Document} {a : α} (h : Reads reader v a)
    (f : α → β) : Reads (do return f (← reader)) v (f a) := by
  intro text rest hspells
  obtain ⟨gap, hgap, hread⟩ := h text rest hspells
  exact ⟨gap, hgap, Json.bind_of_ok hread⟩

/-- Reading a field sets it, and leaves the others as they are. -/
theorem reads_readField (s : Settings) {v : Document} (h : field.value? c = some v) :
    Reads (s.readField field) v (s.fill c field) := by
  cases field with
  | includes =>
    obtain rfl := Option.some.inj h
    exact reads_map (Json.reads_listOf_text c.includes) _
  | ignores =>
    obtain rfl := Option.some.inj h
    exact reads_map (Json.reads_listOf_text c.ignores) _
  | ignoreTestFiles =>
    obtain rfl := Option.some.inj h
    exact reads_map (Json.reads_flag c.ignoreTestFiles) _
  | markerKey =>
    obtain rfl := Option.some.inj h
    exact reads_map (Json.reads_text c.markerKey) _
  | serviceNameKey =>
    obtain rfl := Option.some.inj h
    exact reads_map (Json.reads_text c.serviceNameKey) _
  | pathKey =>
    obtain rfl := Option.some.inj h
    exact reads_map (Json.reads_text c.pathKey) _
  | outputDir =>
    obtain ⟨dir, hdir, rfl⟩ := Option.map_eq_some_iff.mp h
    rw [fill, hdir]
    exact reads_map (Json.reads_optional_text dir) _

/-! ### Entries -/

variable {key : String} {v : Document} {text gap rest : List Char}

/-- **One entry:** a field is set that was not, and what is not known is passed over. -/
theorem readEntry_of_spells
    (h : ∀ field ∈ Field.ofName? key, field.value? c = some v ∧ field ∉ fields)
    (hgap : IsGap gap) (hspells : Spells (.spaced v) text) (hrest : EndsNumber rest) :
    ∃ after, IsGap after ∧ (partly c fields).readEntry key (gap ++ ':' :: (text ++ rest)) =
      .ok (partly c ((Field.ofName? key).toList ++ fields), after ++ rest) := by
  cases hfield : Field.ofName? key with
  | none =>
    obtain ⟨after, hafter, hskip⟩ := Json.skipValue_of_spells hspells hrest
    refine ⟨after, hafter, ?_⟩
    simp only [readEntry, hfield]
    rw [Json.bind_of_ok (Json.colon_of_gap hgap _), Json.bind_of_ok hskip]
    rfl
  | some field =>
    obtain ⟨hvalue, hnew⟩ := h field hfield
    obtain ⟨after, hafter, hread⟩ := reads_readField (partly c fields) hvalue text rest hspells
    refine ⟨after, hafter, ?_⟩
    simp only [readEntry, hfield, has_partly, hnew, decide_false, Bool.false_eq_true, if_false]
    rw [Json.bind_of_ok (Json.colon_of_gap hgap _), hread, fill_partly]
    rfl

theorem readEntries_end (hgap : IsGap gap) (n : Nat) (first : Bool) (s : Settings)
    (rest : List Char) : readEntries (n + 1) first s (gap ++ '\x7d' :: rest) = .ok (s, rest) := by
  rw [readEntries, Json.bind_of_ok (Json.nextKey_end hgap first rest)]
  exact Json.bind_of_ok (Json.advance_cons '\x7d' rest)

/-- A field that the next entry is about is not set yet. -/
theorem notMem_of_nodup {key : String} {more fields : List Field}
    (h : ((Field.ofName? key).toList ++ (more ++ fields)).Nodup) :
    ∀ field ∈ Field.ofName? key, field ∉ fields := fun field hfield hmem =>
  (List.nodup_append.mp h).2.2 field (by simpa using hfield) field
    (List.mem_append_right _ hmem) rfl

/-- The reader goes on behind an entry, wherever it is led to its key. -/
theorem readEntries_succ {opening input : List Char} {first : Bool}
    (hkey : Json.SpellsKey key opening)
    (hinput : Json.nextKey first input = Json.nextKey true (opening ++ ':' :: (text ++ rest)))
    (h : ∀ field ∈ Field.ofName? key, field.value? c = some v ∧ field ∉ fields)
    (hspells : Spells (.spaced v) text) (hrest : EndsNumber rest) (n : Nat) :
    ∃ after, IsGap after ∧ readEntries (n + 1) first (partly c fields) input =
      readEntries n false (partly c ((Field.ofName? key).toList ++ fields)) (after ++ rest) := by
  obtain ⟨gap, hgap, hnext⟩ := Json.nextKey_first hkey (':' :: (text ++ rest))
  obtain ⟨after, hafter, hread⟩ := readEntry_of_spells h hgap hspells hrest
  refine ⟨after, hafter, ?_⟩
  rw [readEntries, Json.bind_of_ok (hinput.trans hnext)]
  exact Json.bind_of_ok hread

/-- **All entries,** wherever the reader is led to the first: what they are about is set. -/
theorem readEntries_of_spells {phrase : Json.Phrase} (h : Spells phrase text) :
    ∀ {es fields first n rest input}, phrase = .entries es → text.length < n →
      Json.nextKey first input = Json.nextKey true (text ++ '\x7d' :: rest) →
      (∀ e ∈ es, ∀ field ∈ Field.ofName? e.1, field.value? c = some e.2) →
      (fieldsOf es ++ fields).Nodup →
      readEntries n first (partly c fields) input =
        .ok (partly c ((fieldsOf es).reverse ++ fields), rest) := by
  have hends : ∀ rest, EndsNumber ('\x7d' :: rest) := Json.endsNumber_cons (by decide)
  have hcomma : ∀ rest, EndsNumber (',' :: rest) := Json.endsNumber_cons (by decide)
  have hreverse : ∀ key, (Field.ofName? key).toList.reverse = (Field.ofName? key).toList := by
    intro key
    cases Field.ofName? key <;> rfl
  induction h with
  | @lastEntry key v opening text hkey hvalue _ =>
    rintro _ fields first n rest input ⟨⟩ hn hinput hgiven hnodup
    simp only [List.length_append, List.length_cons] at hn
    obtain ⟨n, rfl⟩ : ∃ m, n = m + 2 := ⟨n - 2, by omega⟩
    rw [fieldsOf_cons, List.append_assoc] at hnodup
    obtain ⟨after, hafter, hread⟩ := readEntries_succ hkey
      (by rw [hinput, List.append_assoc, List.cons_append])
      (fun field hfield => ⟨hgiven (key, v) (by simp) field hfield,
        notMem_of_nodup hnodup field hfield⟩)
      hvalue (hends rest) (n + 1)
    rw [hread, readEntries_end hafter, fieldsOf_cons, List.reverse_append, hreverse]
    rfl
  | @entry key v es opening text more hkey hvalue hmore _ ih =>
    rintro _ fields first n rest input ⟨⟩ hn hinput hgiven hnodup
    simp only [List.length_append, List.length_cons] at hn
    obtain ⟨n, rfl⟩ : ∃ m, n = m + 1 := ⟨n - 1, by omega⟩
    rw [fieldsOf_cons, List.append_assoc] at hnodup
    obtain ⟨after, hafter, hread⟩ := readEntries_succ hkey
      (by rw [hinput]; simp only [List.append_assoc, List.cons_append])
      (fun field hfield => ⟨hgiven (key, v) (by simp) field hfield,
        notMem_of_nodup hnodup field hfield⟩)
      hvalue (hcomma (more ++ '\x7d' :: rest)) n
    obtain ⟨next, back, hnext, rfl⟩ := hmore.exists_first_of_entries
    -- Behind the comma the others are read as from the start, with one more field that is set.
    have hthat : Json.nextKey false (after ++ ',' :: (next ++ '"' :: back ++ '\x7d' :: rest)) =
        Json.nextKey true (next ++ '"' :: back ++ '\x7d' :: rest) := by
      simpa using Json.nextKey_next hafter hnext (back ++ '\x7d' :: rest)
    have hmoregiven : ∀ e ∈ es, ∀ field ∈ Field.ofName? e.1, field.value? c = some e.2 :=
      fun e he => hgiven e (List.mem_cons_of_mem _ he)
    have hmorenodup : (fieldsOf es ++ ((Field.ofName? key).toList ++ fields)).Nodup :=
      List.perm_append_comm_assoc _ _ _ |>.nodup_iff.mp hnodup
    rw [hread, ih rfl (by omega) hthat hmoregiven hmorenodup, fieldsOf_cons, List.reverse_append,
      hreverse, List.append_assoc]
  | _ => rintro _ _ _ _ _ _ ⟨⟩

/-- The settings of an object, with the blanks behind it left. -/
theorem read_of_spells {es : List (String × Document)} (h : Spells (.spaced (.obj es)) text)
    (hgiven : ∀ e ∈ es, ∀ field ∈ Field.ofName? e.1, field.value? c = some e.2)
    (hnodup : (fieldsOf es).Nodup) :
    ∃ gap, IsGap gap ∧ read text = .ok (partly c (fieldsOf es).reverse, gap) := by
  obtain ⟨before, inner, after, hbefore, hafter, rfl, hentries⟩ :
      ∃ before inner after, IsGap before ∧ IsGap after ∧
        text = before ++ '\x7b' :: (inner ++ '\x7d' :: after) ∧
        readEntries ((inner ++ '\x7d' :: after).length + 1) true (partly c [])
          (inner ++ '\x7d' :: after) = .ok (partly c (fieldsOf es).reverse, after) := by
    cases h with
    | @spaced _ before _ after hbefore hvalue hafter =>
      cases hvalue with
      | @noEntries gap hgap =>
        exact ⟨before, gap, after, hbefore, hafter, by simp, readEntries_end hgap _ true _ after⟩
      | @obj _ inner hentries =>
        refine ⟨before, inner, after, hbefore, hafter, by simp, ?_⟩
        have hlength : inner.length < (inner ++ '\x7d' :: after).length + 1 := by
          rw [List.length_append]
          omega
        rw [readEntries_of_spells hentries rfl hlength rfl hgiven (by rwa [List.append_nil]),
          List.append_nil]
  refine ⟨after, hafter, ?_⟩
  rw [read, Json.bind_of_ok (Json.peekPart_gap_cons hbefore rfl _)]
  refine (Json.bind_of_ok (Json.advance_cons '\x7b' _)).trans ((Json.bind_of_ok rfl).trans ?_)
  rwa [← partly_nil c]

end Settings

/-- **A configuration is read from every text that gives it.** The object may leave out settings
that have their default and hold entries that are no settings', in any order; its text may be laid
out and its strings may be written in any way. -/
theorem read_of_isText {es : List (String × Document)} {text : String} (hgiven : c.GivenBy es)
    (htext : (Document.obj es).IsText text) : read text = .ok c := by
  obtain ⟨gap, hgap, hread⟩ :=
    Settings.read_of_spells htext hgiven.value? hgiven.nodup_fieldsOf
  rw [read, Json.complete_of_ok hgap hread, Except.map]
  rw [Settings.config_partly fun field hfield =>
    hgiven.value?_eq_default fun hmem => hfield (List.mem_reverse.mpr hmem)]

/-- Three settings that are not the defaults. -/
def client : Config :=
  { default with ignores := [], markerKey := "\"Client\"", outputDir := some "gen" }

/-- An object that sets these, in another order and behind an entry that is no setting's. -/
def clientJson : Json :=
  .obj [("$schema", .arr [.null, .obj [("ignores", .nat 1)]]), ("outputDir", .str "gen"),
    ("markerKey", .str "\"Client\""), ("ignores", .arr [])]

theorem read_of_isText_client :
    client.GivenBy clientJson.toDocument.entries ∧ read clientJson.pretty = .ok client := by
  have hgiven : client.GivenBy clientJson.toDocument.entries := by
    refine ⟨["includes", "ignoreTestFiles", "serviceNameKey", "pathKey"],
      [("$schema", .arr [.null, .obj [("ignores", .number ['1'])]])], ?_, ?_, ?_⟩
    · have hentries : client.entries = [("includes", .arr []), ("ignores", .arr []),
          ("ignoreTestFiles", .bool true), ("markerKey", .str "\"Client\""),
          ("serviceNameKey", .str "ServiceName"), ("pathKey", .str "Path"),
          ("outputDir", .str "gen")] := rfl
      have hdefault : default.entries = [("includes", .arr []),
          ("ignores", .arr [.str "**/node_modules/**"]), ("ignoreTestFiles", .bool true),
          ("markerKey", .str "HttpClient"), ("serviceNameKey", .str "ServiceName"),
          ("pathKey", .str "Path")] := rfl
      simp [hentries, hdefault]
    · simp [Field.all, Field.name]
    · exact List.reverse_perm [("ignores", _), ("markerKey", _), ("outputDir", _), ("$schema", _)]
  exact ⟨hgiven, read_of_isText hgiven (Json.isText_pretty clientJson)⟩

end Config
end FetchClients
