import ServiceMetadata.Proofs.Text.SortedTables
import ServiceMetadata.Proofs.Vocabulary.Histories

/-!
# Empty names and URIs in vocabulary files

A file that lists entries is refused if one of them has an empty name or URI. A file that is an
object is not looked at in this way, so the empty text comes into a vocabulary just if it is a key
of the object or the last value under one. What is looked up is then found to be empty just if the
last file that has the name gives it the empty URI.
-/
namespace ServiceMetadata
open ServiceMetadata.Json (Value)

structure Vocabulary.FreeOfBlanks (v : Vocabulary) : Prop where
  name : ∀ e ∈ v.entries, e.name ≠ ""
  uri : ∀ e ∈ v.entries, e.uri ≠ ""

/-- An object with the empty key, or with a key under which the empty string is the last value. -/
def HasBlankMember : Value → Prop
  | .object members =>
    ∃ key value, members.reverse.lookup key = some value ∧ (key = "" ∨ value = .string "")
  | _ => False

namespace VocabularyFile

variable {value : Value} {file : VocabularyFile} {w : Vocabulary}

theorem eq_map_of_mapM_ofMember? {members : List (String × Value)} {rows : List (String × String)}
    (h : members.mapM ofMember? = some rows) :
    members = rows.map fun row => (row.1, .string row.2) := by
  induction members generalizing rows with
  | nil =>
    obtain rfl : [] = rows := by simpa using h
    rfl
  | cons member members ih =>
    rw [List.mapM_cons] at h
    obtain ⟨row, hrow, hbind⟩ := Option.bind_eq_some_iff.1 h
    obtain ⟨rest, hrest, heq⟩ := Option.bind_eq_some_iff.1 hbind
    obtain rfl : row :: rest = rows := Option.some.inj heq
    obtain ⟨key, value⟩ := member
    rw [List.map_cons, ← ih hrest]
    cases value with
    | string uri =>
      obtain rfl := Option.some.inj hrow
      rfl
    | _ => simp [ofMember?] at hrow

theorem lookup_map_string (key : String) (rows : List (String × String)) :
    (rows.map fun row => (row.1, Value.string row.2)).lookup key =
      (rows.lookup key).map Value.string := by
  induction rows with
  | nil => rfl
  | cons row rows ih =>
    rw [List.map_cons, List.lookup_cons, List.lookup_cons, ih]
    cases key == row.1 <;> rfl

theorem hasBlankMember_iff (rows : List (String × String)) :
    HasBlankMember (.object (rows.map fun row => (row.1, .string row.2))) ↔
      ∃ row ∈ (Text.SortedTable.ofRows rows).rows, row.1 = "" ∨ row.2 = "" := by
  simp only [HasBlankMember, ← List.map_reverse, lookup_map_string, Option.map_eq_some_iff,
    Prod.exists, Text.SortedTable.mem_ofRows_iff]
  constructor
  · rintro ⟨key, _, ⟨uri, hlast, rfl⟩, hblank⟩
    exact ⟨key, uri, hlast, by simpa using hblank⟩
  · rintro ⟨key, uri, hlast, hblank⟩
    exact ⟨key, _, ⟨uri, hlast, rfl⟩, by simpa using hblank⟩

end VocabularyFile

namespace Vocabulary

variable {v w : Vocabulary} {es : List VocabularyEntry} {e : VocabularyEntry}

theorem entries_ofEntries (h : (es.map (·.name)).Nodup) : (ofEntries es).entries = es := by
  induction es using List.reverseRecOn with
  | nil => rfl
  | append_singleton es e ih =>
    rw [List.map_append, List.nodup_append] at h
    have hes := ih h.1
    have hindexed : (ofEntries es).Indexed := empty_indexed.insertAll es
    have hnew : (ofEntries es).places.lookup e.name = none := by
      rw [hindexed.places_eq_none_iff, hes]
      exact fun e' he' => h.2.2 _ (List.mem_map_of_mem he') _ (by simp)
    have hconcat : ofEntries (es ++ [e]) = (ofEntries es).insert e := List.foldl_append
    rw [hconcat, insert_of_new hnew, hes]

theorem mem_of_mem_ofEntries (h : e ∈ (ofEntries es).entries) : e ∈ es :=
  (lastOf_name ((tabulates_nil.insertAll empty_indexed es).last e h)).1

theorem freeOfBlanks_iff : v.FreeOfBlanks ↔ ∀ e ∈ v.entries, e.name ≠ "" ∧ e.uri ≠ "" := by
  constructor
  · exact fun h e he => ⟨h.name e he, h.uri e he⟩
  · exact fun h => ⟨fun e he => (h e he).1, fun e he => (h e he).2⟩

theorem freeOfBlanks_list (h : es.find? VocabularyFile.isBlankEntry = none) :
    (ofEntries es).FreeOfBlanks := by
  rw [freeOfBlanks_iff]
  intro e he
  simpa [VocabularyFile.isBlankEntry] using List.find?_eq_none.1 h e (mem_of_mem_ofEntries he)

theorem entries_ofTable (t : Text.SortedTable) :
    (ofEntries (t.rows.map fun row => ⟨row.1, row.2⟩)).entries =
      t.rows.map fun row => ⟨row.1, row.2⟩ := by
  apply entries_ofEntries
  rw [List.map_map, List.Nodup, List.pairwise_map]
  exact t.sorted.imp fun {a b} hlt (heq : a.1 = b.1) => String.lt_irrefl b.1 (heq ▸ hlt)

theorem freeOfBlanks_table_iff (t : Text.SortedTable) :
    (ofEntries (t.rows.map fun row => ⟨row.1, row.2⟩)).FreeOfBlanks ↔
      ¬ ∃ row ∈ t.rows, row.1 = "" ∨ row.2 = "" := by
  rw [freeOfBlanks_iff, entries_ofTable, List.forall_mem_map]
  simp only [not_exists, not_and, not_or, ne_eq]

theorem freeOfBlanks_iff_of_value {value : Value} {file : VocabularyFile}
    (hfile : VocabularyFile.ofValue? value = some file) (hw : file.vocabulary = .ok w) :
    w.FreeOfBlanks ↔ ¬ HasBlankMember value := by
  cases value with
  | array items =>
    obtain ⟨entries, -, rfl⟩ := Option.map_eq_some_iff.1 hfile
    rw [VocabularyFile.vocabulary] at hw
    split at hw
    · simp at hw
    · obtain rfl := Except.ok.inj hw
      simpa [HasBlankMember] using freeOfBlanks_list ‹_›
  | object members =>
    obtain ⟨rows, hrows, rfl⟩ := Option.map_eq_some_iff.1 hfile
    obtain rfl := Except.ok.inj hw
    rw [VocabularyFile.eq_map_of_mapM_ofMember? hrows, VocabularyFile.hasBlankMember_iff]
    exact freeOfBlanks_table_iff _
  | _ => simp [VocabularyFile.ofValue?] at hfile

def ReadsAs (bytes : ByteArray) (value : Value) : Prop :=
  (Json.readSymbolsAsNode (Text.symbols bytes)).root.value 0 = .ok value

theorem ofBytes_eq_ok {bytes : ByteArray} (h : ofBytes bytes = .ok w) :
    ∃ value file, ReadsAs bytes value ∧ VocabularyFile.ofValue? value = some file ∧
      file.vocabulary = .ok w := by
  rw [ofBytes, ofSymbols_eq] at h
  obtain ⟨file, hfile, hw⟩ := bind_eq_ok_iff.1 h
  rw [VocabularyFile.ofSymbols] at hfile
  split at hfile
  · simp at hfile
  rename_i value hvalue
  split at hfile
  · simp at hfile
  rename_i found hfound
  split at hfile
  · simp at hfile
  · obtain rfl := Except.ok.inj hfile
    exact ⟨value, _, hvalue, hfound, hw⟩

theorem Indexed.resolve_ne_empty_iff (hv : v.Indexed) :
    (∀ key, key ≠ "" → v.resolve key ≠ "") ↔
      ∀ e ∈ v.entries, e.uri = "" → e.name = "" ∨ isUri e.name = true := by
  constructor
  · intro h e he huri
    by_contra hplain
    rw [not_or] at hplain
    apply h e.name hplain.1
    rw [hv.resolve_eq, if_neg hplain.2, (hv.getByName_iff e.name e).2 ⟨he, rfl⟩]
    exact huri
  · intro h key hkey hempty
    rw [hv.resolve_eq] at hempty
    split at hempty
    · exact hkey hempty
    · rename_i hplain
      cases hfound : v.getByName key with
      | none => exact hkey (by simpa [hfound] using hempty)
      | some e =>
        obtain ⟨he, rfl⟩ := (hv.getByName_iff key e).1 hfound
        exact (h e he (by simpa [hfound] using hempty)).elim hkey hplain

theorem empty_not_mem_resolveAll_iff (v : Vocabulary) :
    (∀ keys, "" ∉ v.resolveAll keys) ↔ ∀ key, key ≠ "" → v.resolve key ≠ "" := by
  constructor
  · intro h key hkey hempty
    apply h [key]
    simp [resolveAll, hkey, hempty]
  · intro h keys hmem
    obtain ⟨key, hkey, hempty⟩ := List.mem_map.1 hmem
    exact h key (by simpa using (List.mem_filter.1 hkey).2) hempty

def layered (ws : List Vocabulary) : Vocabulary := ws.foldl extend standard

theorem layered_eq_insertAll (ws : List Vocabulary) :
    layered ws = standard.insertAll (ws.flatMap (·.entries)) := by
  rw [insertAll, List.foldl_flatMap]
  rfl

theorem layered_indexed (ws : List Vocabulary) : (layered ws).Indexed := by
  rw [layered_eq_insertAll]
  exact History.standard.indexed.insertAll _

theorem mem_layered_iff (ws : List Vocabulary) :
    e ∈ (layered ws).entries ↔
      lastOf (Standard.entries ++ ws.flatMap (·.entries)) e.name = some e := by
  rw [layered_eq_insertAll]
  exact (History.standard.tabulates.insertAll History.standard.indexed _).mem_iff

/-- Of the vocabularies that have a name that can be looked up, the last gives it a URI. -/
def LastHasUri (ws : List Vocabulary) : Prop :=
  ∀ e, lastOf (ws.flatMap (·.entries)) e.name = some e → e.uri = "" →
    e.name = "" ∨ isUri e.name = true

theorem lastHasUri_iff (ws : List Vocabulary) :
    LastHasUri ws ↔
      ∀ e ∈ (layered ws).entries, e.uri = "" → e.name = "" ∨ isUri e.name = true := by
  have hstandard : ∀ e ∈ Standard.entries, e.uri ≠ "" := by decide +kernel
  simp only [LastHasUri, mem_layered_iff, lastOf_append, Option.or_eq_some_iff]
  constructor
  · rintro h e (hlast | ⟨-, hlast⟩) huri
    · exact h e hlast huri
    · exact absurd huri (hstandard e (lastOf_name hlast).1)
  · exact fun h e hlast huri => h e (.inl hlast) huri

theorem lastHasUri_of_freeOfBlanks {ws : List Vocabulary} (h : ∀ w ∈ ws, w.FreeOfBlanks) :
    LastHasUri ws := by
  intro e hlast huri
  obtain ⟨w, hw, he⟩ := List.mem_flatMap.1 (lastOf_name hlast).1
  exact absurd huri ((h w hw).uri e he)

/-- A file that is accepted is free of blanks just if it is not an object with a blank member, and
over the standard vocabulary nothing is found to be empty just if the last of the files that has a
name gives it a URI. -/
theorem accepted_free_of_blanks_iff {bytes : ByteArray} {w : Vocabulary}
    (h : ofBytes bytes = .ok w) (ws : List Vocabulary) :
    (∃ value, ReadsAs bytes value ∧ (w.FreeOfBlanks ↔ ¬ HasBlankMember value)) ∧
      ((∀ key, key ≠ "" → (layered ws).resolve key ≠ "") ↔ LastHasUri ws) ∧
      ((∀ keys, "" ∉ (layered ws).resolveAll keys) ↔ LastHasUri ws) ∧
      ((∀ w' ∈ ws, w'.FreeOfBlanks) → LastHasUri ws) := by
  obtain ⟨value, file, hvalue, hfile, hw⟩ := ofBytes_eq_ok h
  have hfree : w.FreeOfBlanks ↔ ¬ HasBlankMember value := freeOfBlanks_iff_of_value hfile hw
  have hresolve : (∀ key, key ≠ "" → (layered ws).resolve key ≠ "") ↔ LastHasUri ws :=
    (layered_indexed ws).resolve_ne_empty_iff.trans (lastHasUri_iff ws).symm
  have hresolveAll : (∀ keys, "" ∉ (layered ws).resolveAll keys) ↔ LastHasUri ws :=
    (empty_not_mem_resolveAll_iff _).trans hresolve
  exact ⟨⟨value, hvalue, hfree⟩, hresolve, hresolveAll, lastHasUri_of_freeOfBlanks⟩

def withoutUri : Vocabulary := ofEntries [⟨"any", ""⟩]

def withUri : Vocabulary := ofEntries [⟨"any", "urn:any"⟩]

theorem free_of_blanks_after_repair :
    ofBytes "\x7b\"any\":\"\",\"any\":\"urn:any\"\x7d".toUTF8 = .ok withUri ∧
      (∃ value, ReadsAs "\x7b\"any\":\"\",\"any\":\"urn:any\"\x7d".toUTF8 value ∧
        ¬ HasBlankMember value) ∧
      ∀ key, key ≠ "" → (layered [withoutUri, withUri]).resolve key ≠ "" := by
  have haccepted : ofBytes "\x7b\"any\":\"\",\"any\":\"urn:any\"\x7d".toUTF8 = .ok withUri :=
    toOption_eq_some_iff.1 (by decide +kernel)
  have hfree : withUri.FreeOfBlanks := freeOfBlanks_iff.2 (by decide +kernel)
  have hlast : LastHasUri [withoutUri, withUri] := (lastHasUri_iff _).2 (by decide +kernel)
  obtain ⟨⟨value, hvalue, hiff⟩, hresolve, -⟩ :=
    accepted_free_of_blanks_iff haccepted [withoutUri, withUri]
  exact ⟨haccepted, ⟨value, hvalue, hiff.1 hfree⟩, hresolve.2 hlast⟩

theorem empty_uri_of_object :
    ofBytes "\x7b\"any\":\"\"\x7d".toUTF8 = .ok withoutUri ∧ ¬ withoutUri.FreeOfBlanks ∧
      (layered [withoutUri]).resolve "any" = "" ∧
      (layered [withoutUri]).resolveAll ["any"] = [""] := by
  refine ⟨toOption_eq_some_iff.1 (by decide +kernel), fun h => ?_, by decide +kernel,
    by decide +kernel⟩
  exact h.uri ⟨"any", ""⟩ (by decide +kernel) rfl

end Vocabulary
end ServiceMetadata
