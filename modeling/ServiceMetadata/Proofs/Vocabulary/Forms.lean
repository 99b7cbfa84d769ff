import ServiceMetadata.Proofs.FirstLine
import ServiceMetadata.Proofs.Json.Values
import ServiceMetadata.Proofs.Text.Bytes
import ServiceMetadata.Proofs.Vocabulary.Blanks

/-!
# The two forms of a vocabulary file

Entries written as a list come back in their order, a name that is listed again with its last URI at
its first place. Written as an object from names to URIs they come back in the order of the bytes of
their names. No lookup by name and no resolution tells which of the two forms they were read from.
-/
namespace ServiceMetadata
open ServiceMetadata.Json (Value)

variable {es : List VocabularyEntry} {value : Value} {text : String}

def VocabularyEntry.asObject (e : VocabularyEntry) : Value :=
  .object [("name", .string e.name), ("uri", .string e.uri)]

theorem VocabularyEntry.ofValue?_asObject (e : VocabularyEntry) :
    ofValue? e.asObject = some e := rfl

namespace VocabularyFile

def listValue (es : List VocabularyEntry) : Value := .array (es.map (·.asObject))

def row (e : VocabularyEntry) : String × String := (e.name, e.uri)

def tableValue (es : List VocabularyEntry) : Value :=
  .object ((es.map row).map fun row => (row.1, .string row.2))

theorem ofValue?_listValue (es : List VocabularyEntry) :
    ofValue? (listValue es) = some (.list es) := by
  have hitems : (es.map (·.asObject)).mapM VocabularyEntry.ofValue? = some es := by
    induction es with
    | nil => rfl
    | cons e es ih =>
      rw [List.map_cons, List.mapM_cons, VocabularyEntry.ofValue?_asObject, ih]
      rfl
  rw [listValue, ofValue?, hitems]
  rfl

theorem ofValue?_tableValue (es : List VocabularyEntry) :
    ofValue? (tableValue es) = some (.table (Text.SortedTable.ofRows (es.map row))) := by
  have hmembers : ∀ rows : List (String × String),
      (rows.map fun row => (row.1, Value.string row.2)).mapM ofMember? = some rows := by
    intro rows
    induction rows with
    | nil => rfl
    | cons row rows ih =>
      rw [List.map_cons, List.mapM_cons, ih]
      rfl
  rw [tableValue, ofValue?, hmembers]
  rfl

theorem wellSpelled_listValue (es : List VocabularyEntry) : (listValue es).WellSpelled := by
  induction es with
  | nil => trivial
  | cons e es ih => exact ⟨⟨trivial, trivial, trivial⟩, ih⟩

theorem readable_listValue (es : List VocabularyEntry) : (listValue es).Readable 0 := by
  refine ⟨by decide, ?_⟩
  induction es with
  | nil => trivial
  | cons e es ih => exact ⟨⟨by decide, trivial, trivial, trivial⟩, ih⟩

theorem wellSpelled_tableValue (es : List VocabularyEntry) : (tableValue es).WellSpelled :=
  Json.Field.wellSpelled_tableMembers (es.map row)

theorem readable_tableValue (es : List VocabularyEntry) : (tableValue es).Readable 0 := by
  refine ⟨by decide, ?_⟩
  induction es with
  | nil => trivial
  | cons e es ih => exact ⟨trivial, ih⟩

end VocabularyFile

namespace Vocabulary
open VocabularyFile (listValue tableValue)

theorem symbols_toUTF8 (text : String) : Text.symbols text.toUTF8 = Text.symbolsOfString text := by
  rw [Text.symbols, fromUTF8?_eq_some_iff.2 rfl]

theorem ofBytes_of_readsAs {file : VocabularyFile} (htext : Json.ReadsAs text value)
    (hfile : VocabularyFile.ofValue? value = some file) :
    ofBytes text.toUTF8 = file.vocabulary := by
  obtain ⟨hend, hvalue⟩ := htext
  have hread : VocabularyFile.ofSymbols (Text.symbolsOfString text) = .ok file := by
    rw [Json.Reading.ofString] at hend hvalue
    simp only [VocabularyFile.ofSymbols, hvalue, hfile, hend]
    rfl
  rw [ofBytes, symbols_toUTF8, ofSymbols_eq, hread]
  rfl

/-- Every text that spells the value is accepted and gives the vocabulary, and the value's written
form is such a text. -/
structure LoadedFrom (value : Value) (v : Vocabulary) : Prop where
  written : Json.ReadsAs value.pretty value
  accepted : ∀ text, Json.ReadsAs text value → ofBytes text.toUTF8 = .ok v

theorem loadedFrom_listValue (hfull : ∀ e ∈ es, e.name ≠ "" ∧ e.uri ≠ "") :
    LoadedFrom (listValue es) (ofEntries es) where
  written := Json.pretty_readsAs (VocabularyFile.wellSpelled_listValue es)
    (VocabularyFile.readable_listValue es)
  accepted text htext := by
    have hnone : es.find? VocabularyFile.isBlankEntry = none := by
      rw [List.find?_eq_none]
      intro e he
      simpa [VocabularyFile.isBlankEntry] using hfull e he
    rw [ofBytes_of_readsAs htext (VocabularyFile.ofValue?_listValue es), VocabularyFile.vocabulary,
      hnone]

def ofTable (es : List VocabularyEntry) : Vocabulary :=
  ofEntries ((Text.SortedTable.ofRows (es.map VocabularyFile.row)).rows.map fun row =>
    ⟨row.1, row.2⟩)

theorem loadedFrom_tableValue (es : List VocabularyEntry) :
    LoadedFrom (tableValue es) (ofTable es) where
  written := Json.pretty_readsAs (VocabularyFile.wellSpelled_tableValue es)
    (VocabularyFile.readable_tableValue es)
  accepted text htext := by
    rw [ofBytes_of_readsAs htext (VocabularyFile.ofValue?_tableValue es)]
    rfl

theorem entries_ofTable_perm (hdistinct : (es.map (·.name)).Nodup) :
    (ofTable es).entries.Perm es := by
  have hnames : ((es.map VocabularyFile.row).map (·.1)).Nodup := by
    rwa [List.map_map]
  have hperm := (Text.SortedTable.rows_ofRows_perm hnames).map
    fun row => VocabularyEntry.mk row.1 row.2
  have hentries :
      (es.map VocabularyFile.row).map (fun row => VocabularyEntry.mk row.1 row.2) = es := by
    rw [List.map_map]
    exact List.map_id es
  rwa [← entries_ofTable, hentries] at hperm

def ByteOrder (a b : VocabularyEntry) : Prop :=
  a.name.toUTF8.data.toList < b.name.toUTF8.data.toList

theorem entries_ofTable_sorted (es : List VocabularyEntry) :
    (ofTable es).entries.Pairwise ByteOrder := by
  rw [ofTable, entries_ofTable, List.pairwise_map]
  exact (Text.SortedTable.ofRows _).sorted.imp fun h => Text.toUTF8_lt_of_lt h

theorem getByName_ofTable (hdistinct : (es.map (·.name)).Nodup) (key : String) :
    (ofEntries es).getByName key = (ofTable es).getByName key ∧
      (ofEntries es).resolve key = (ofTable es).resolve key := by
  have hlist : (ofEntries es).Indexed := empty_indexed.insertAll es
  have htable : (ofTable es).Indexed := empty_indexed.insertAll _
  have hsame : ∀ e, e ∈ (ofEntries es).entries ↔ e ∈ (ofTable es).entries := fun e => by
    rw [entries_ofEntries hdistinct, (entries_ofTable_perm hdistinct).mem_iff]
  exact ⟨hlist.getByName_congr htable hsame key, hlist.resolve_congr htable hsame key⟩

/-- Entries without blanks can be read from a list, which gives each name once, and from an object.
If their names differ, the list gives them as they are and the object in the order of the bytes of
their names, and lookups answer alike. So a vocabulary without blanks that has been written as a
list is read with the same entries. -/
theorem forms_agree (hfull : ∀ e ∈ es, e.name ≠ "" ∧ e.uri ≠ "") :
    (∃ v, LoadedFrom (listValue es) v ∧ Tabulates es v.entries) ∧
    ((es.map (·.name)).Nodup → ∃ v w, LoadedFrom (listValue es) v ∧
      LoadedFrom (tableValue es) w ∧ v.entries = es ∧
      w.entries.Perm es ∧ w.entries.Pairwise ByteOrder ∧
      ∀ key, v.getByName key = w.getByName key ∧ v.resolve key = w.resolve key) ∧
    ∀ u, Reachable u → u.FreeOfBlanks →
      ∃ v, LoadedFrom (listValue u.entries) v ∧ v.entries = u.entries := by
  refine ⟨?_, fun hdistinct => ?_, fun u hu hfree => ?_⟩
  · exact ⟨_, loadedFrom_listValue hfull, tabulates_nil.insertAll empty_indexed es⟩
  · exact ⟨_, _, loadedFrom_listValue hfull, loadedFrom_tableValue es, entries_ofEntries hdistinct,
      entries_ofTable_perm hdistinct, entries_ofTable_sorted es, getByName_ofTable hdistinct⟩
  · exact ⟨_, loadedFrom_listValue (freeOfBlanks_iff.1 hfree),
      entries_ofEntries hu.indexed.nodup_names⟩

def listedAgain : List VocabularyEntry :=
  [⟨"\uffee", "urn:1"⟩, ⟨"😀\n", "urn:\"2\""⟩, ⟨"\uffee", "urn:3"⟩]

def listedOnce : List VocabularyEntry := [⟨"😀\n", "urn:\"2\""⟩, ⟨"\uffee", "urn:3"⟩]

theorem forms_agree_of_names_listed :
    (∃ v, LoadedFrom (listValue listedAgain) v ∧
      v.entries.map (·.name) = ["\uffee", "😀\n"] ∧ ⟨"\uffee", "urn:1"⟩ ∉ v.entries) ∧
    ∃ v w, LoadedFrom (listValue listedOnce) v ∧ LoadedFrom (tableValue listedOnce) w ∧
      v.entries = listedOnce ∧ w.entries.Pairwise ByteOrder ∧
      v.resolve "\uffee" = w.resolve "\uffee" := by
  have hagain : ∀ e ∈ listedAgain, e.name ≠ "" ∧ e.uri ≠ "" := by decide
  have honce : ∀ e ∈ listedOnce, e.name ≠ "" ∧ e.uri ≠ "" := by decide
  obtain ⟨⟨v, hv, htable⟩, -⟩ := forms_agree hagain
  obtain ⟨-, hdistinct, -⟩ := forms_agree honce
  obtain ⟨v', w', hv', hw', hentries, -, hsorted, hsame⟩ := hdistinct (by decide)
  refine ⟨⟨v, hv, htable.names.trans (by decide), fun hmem => ?_⟩,
    v', w', hv', hw', hentries, hsorted, (hsame "\uffee").2⟩
  exact absurd (htable.last _ hmem) (by decide)

end Vocabulary
end ServiceMetadata
