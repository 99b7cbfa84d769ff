import ServiceMetadata.Proofs.Descriptor.Blanks
import ServiceMetadata.Proofs.Descriptor.TagsetTables
import ServiceMetadata.Proofs.EffectiveMetadata.Precedence
import ServiceMetadata.Proofs.Vocabulary.Histories
import ServiceMetadata.Proofs.Vocabulary.Insertion

/-!
# What a descriptor looks up

A descriptor sees of the vocabulary only what the keys in the effective metadata resolve to. Laying
another vocabulary over it changes this for no key but its own names, whatever URIs it brings, so a
layer that names none of the keys leaves every descriptor as it was.
-/
namespace ServiceMetadata
open ServiceMetadata.Vocabulary (IsPair)

variable {v w : Vocabulary} {p : Project} {className key entry : String}
  {common : Option ServiceRecord} {own : ServiceRecord}

def IsWordOf (entry key : String) : Prop := ∃ other, IsPair entry key other ∨ IsPair entry other key

theorem isWordOf_iff :
    IsWordOf entry key ↔
      (Text.words entry.toList).length = 2 ∧ key.toList ∈ Text.words entry.toList := by
  constructor
  · rintro ⟨other, h | h⟩ <;> simp [(Text.words_eq_iff _ _).2 h]
  · rintro ⟨hlength, hmem⟩
    obtain ⟨first, second, hwords⟩ := List.length_eq_two.1 hlength
    rw [hwords, List.mem_pair] at hmem
    rcases hmem with rfl | rfl
    · refine ⟨String.ofList second, .inl ?_⟩
      rwa [IsPair, String.toList_ofList, ← Text.words_eq_iff]
    · refine ⟨String.ofList first, .inr ?_⟩
      rwa [IsPair, String.toList_ofList, ← Text.words_eq_iff]

instance : Decidable (IsWordOf entry key) := decidable_of_iff _ isWordOf_iff.symm

/-- A text, an item of a list, or a word of a tagset entry that counts. The empty text is no key. -/
def IsKeyIn (texts : List String) (lists tagsetLists : List (List String)) (key : String) : Prop :=
  key ≠ "" ∧ (key ∈ texts ∨ (∃ keys ∈ lists, key ∈ keys) ∨
    ∃ entries ∈ tagsetLists, ∃ entry ∈ entries, IsWordOf entry key)

instance (texts : List String) (lists tagsetLists : List (List String)) :
    Decidable (IsKeyIn texts lists tagsetLists key) :=
  inferInstanceAs (Decidable (_ ∧ _))

namespace EffectiveMetadata

section Fields
variable {α : Type} {blank a : α} {f : TieredField α} {fields : List (TieredField α)}

def keyTexts : List (TieredField String) :=
  [⟨(·.license), [(·.license)]⟩, ⟨(·.allow), [(·.allow)]⟩,
    ⟨(·.inputEncoding), [(·.requiresEncoding), (·.encoding)]⟩,
    ⟨(·.outputEncoding), [(·.producesEncoding), (·.encoding)]⟩]

def keyLists : List (TieredField (List String)) :=
  [⟨(·.inputLanguage), [(·.requiresLanguage), (·.language)]⟩,
    ⟨(·.outputLanguage), [(·.producesLanguage), (·.language)]⟩,
    ⟨(·.inputFormat), [(·.requiresFormat), (·.format)]⟩,
    ⟨(·.outputFormat), [(·.producesFormat), (·.format)]⟩,
    ⟨(·.requires), [(·.requires)]⟩, ⟨(·.produces), [(·.produces)]⟩]

def tagsetLists : List (TieredField (List String)) :=
  [⟨(·.requiresTagsets), [(·.requiresTagsets)]⟩, ⟨(·.producesTagsets), [(·.producesTagsets)]⟩]

theorem keyTexts_subset : keyTexts ⊆ tieredTexts := by
  simp [keyTexts, tieredTexts, layeredTexts, allowField, blankTexts, LayeredField.tiered]

theorem keyLists_subset : keyLists ⊆ tieredLists := by
  simp [keyLists, tieredLists, layeredLists, LayeredField.tiered]

theorem tagsetLists_subset : tagsetLists ⊆ tieredLists := by
  simp [tagsetLists, tieredLists, layeredLists, LayeredField.tiered]

def values (m : EffectiveMetadata) (fields : List (TieredField α)) : List α :=
  fields.filterMap (·.effective m)

theorem mem_values {m : EffectiveMetadata} (hf : f ∈ fields) (ha : f.effective m = some a) :
    a ∈ m.values fields :=
  List.mem_filterMap.2 ⟨f, hf, ha⟩

end Fields

def LooksUp (m : EffectiveMetadata) : String → Prop :=
  IsKeyIn (m.values keyTexts) (m.values keyLists) (m.values tagsetLists)

instance (m : EffectiveMetadata) : Decidable (m.LooksUp key) :=
  inferInstanceAs (Decidable (IsKeyIn _ _ _ _))

end EffectiveMetadata

open EffectiveMetadata (TieredField keyTexts keyLists tagsetLists)

namespace ServiceRecord

def values {α : Type} (r : ServiceRecord) (fields : List (TieredField α)) : List α :=
  fields.flatMap fun f => f.tiers.map fun field => field r

def Mentions (r : ServiceRecord) : String → Prop :=
  IsKeyIn (r.values keyTexts) (r.values keyLists) (r.values tagsetLists)

end ServiceRecord

def DataSourceRecord.LooksUp (r : DataSourceRecord) : String → Prop :=
  IsKeyIn [r.license, r.allow, r.encoding] [r.language, r.format] []

instance (r : DataSourceRecord) : Decidable (r.LooksUp key) :=
  inferInstanceAs (Decidable (IsKeyIn _ _ _ _))

namespace EffectiveMetadata

theorem mem_chain {α : Type} {field : ServiceRecord → α} {a : α} :
    a ∈ chain common own field ↔ ∃ r ∈ own :: common.toList, field r = a := by
  cases common <;> simp [chain, eq_comm]

theorem exists_record_of_mem_values {α : Type} [DecidableEq α] {blank a : α}
    {fields : List (TieredField α)} (hwired : ∀ f ∈ fields, f.Wired blank)
    (h : a ∈ (merge common own).values fields) :
    ∃ r ∈ own :: common.toList, a ∈ r.values fields := by
  obtain ⟨f, hf, ha⟩ := List.mem_filterMap.1 h
  rw [(hwired f hf).effective] at ha
  obtain ⟨field, hfield, hchain⟩ := List.mem_flatMap.1 (List.mem_of_find?_eq_some ha)
  obtain ⟨r, hr, rfl⟩ := mem_chain.1 hchain
  exact ⟨r, hr, List.mem_flatMap.2 ⟨f, hf, List.mem_map_of_mem hfield⟩⟩

theorem LooksUp.mentioned (h : (merge common own).LooksUp key) :
    ∃ r ∈ own :: common.toList, r.Mentions key := by
  obtain ⟨hne, htext | ⟨keys, hkeys, hkey⟩ | ⟨entries, hentries, hword⟩⟩ := h
  · obtain ⟨r, hr, hmem⟩ :=
      exists_record_of_mem_values (fun f hf => wired_texts f (keyTexts_subset hf)) htext
    exact ⟨r, hr, hne, .inl hmem⟩
  · obtain ⟨r, hr, hmem⟩ :=
      exists_record_of_mem_values (fun f hf => wired_lists f (keyLists_subset hf)) hkeys
    exact ⟨r, hr, hne, .inr (.inl ⟨keys, hmem, hkey⟩)⟩
  · obtain ⟨r, hr, hmem⟩ :=
      exists_record_of_mem_values (fun f hf => wired_lists f (tagsetLists_subset hf)) hentries
    exact ⟨r, hr, hne, .inr (.inr ⟨entries, hmem, hword⟩)⟩

end EffectiveMetadata

namespace Vocabulary

theorem getByName_insertAll_of_unnamed (hv : v.Indexed) {es : List VocabularyEntry}
    (h : ∀ e ∈ es, e.name ≠ key) : (v.insertAll es).getByName key = v.getByName key := by
  induction es generalizing v with
  | nil => rfl
  | cons e es ih =>
    obtain ⟨hfirst, hrest⟩ := List.forall_mem_cons.1 h
    exact (ih (hv.insert e) hrest).trans (getByName_insert_of_ne hv (Ne.symm hfirst))

theorem resolve_extend_of_unnamed (hv : v.Indexed) (h : ∀ e ∈ w.entries, e.name ≠ key) :
    (v.extend w).resolve key = v.resolve key := by
  have hextended : (v.extend w).Indexed := hv.insertAll w.entries
  rw [hextended.resolve_eq, hv.resolve_eq, extend, getByName_insertAll_of_unnamed hv h]

theorem resolve?_congr (h : key ≠ "" → v.resolve key = w.resolve key) :
    v.resolve? key = w.resolve? key := by
  by_cases hkey : key = ""
  · simp [resolve?, hkey]
  · rw [resolve?, resolve?, if_neg hkey, if_neg hkey, h hkey]

theorem resolveAll_congr {keys : List String}
    (h : ∀ key ∈ keys, key ≠ "" → v.resolve key = w.resolve key) :
    v.resolveAll keys = w.resolveAll keys := by
  refine List.map_congr_left fun key hkey => ?_
  obtain ⟨hmem, hne⟩ := List.mem_filter.1 hkey
  exact h key hmem (by simpa using hne)

theorem resolveOption_congr {text : Option String}
    (h : ∀ key, text = some key → key ≠ "" → v.resolve key = w.resolve key) :
    v.resolveOption text = w.resolveOption text := by
  cases text with
  | none => rfl
  | some key => exact resolve?_congr (h key rfl)

theorem resolveList_congr {list : Option (List String)}
    (h : ∀ keys, list = some keys → ∀ key ∈ keys, key ≠ "" → v.resolve key = w.resolve key) :
    v.resolveList list = w.resolveList list := by
  cases list with
  | none => rfl
  | some keys => exact resolveAll_congr (h keys rfl)

theorem tagsetRow?_congr (h : ∀ key, IsWordOf entry key → v.resolve key = w.resolve key) :
    v.tagsetRow? entry = w.tagsetRow? entry := by
  cases hrow : v.tagsetRow? entry with
  | some row =>
    obtain ⟨kind, tagset, hpair, rfl⟩ := exists_isPair_of_tagsetRow? hrow
    rw [tagsetRow?_of_isPair hpair, h kind ⟨tagset, .inl hpair⟩, h tagset ⟨kind, .inr hpair⟩]
  | none =>
    cases hrow' : w.tagsetRow? entry with
    | none => rfl
    | some row =>
      obtain ⟨kind, tagset, hpair, -⟩ := exists_isPair_of_tagsetRow? hrow'
      simp [tagsetRow?_of_isPair hpair] at hrow

theorem tagsets_congr {list : Option (List String)}
    (h : ∀ entries, list = some entries → ∀ entry ∈ entries, ∀ key, IsWordOf entry key →
      v.resolve key = w.resolve key) :
    v.tagsets (list.getD []) = w.tagsets (list.getD []) := by
  cases list with
  | none => rfl
  | some entries =>
    rw [Option.getD_some, tagsets, tagsets,
      List.filterMap_congr fun entry hentry => tagsetRow?_congr (h entries rfl entry hentry)]

end Vocabulary

theorem IsWordOf.ne_empty (h : IsWordOf entry key) : key ≠ "" := by
  rintro rfl
  exact (Text.isWord_of_mem_words (isWordOf_iff.1 h).2).1 rfl

theorem ServiceDescriptor.build_congr
    (h : ∀ key, (EffectiveMetadata.merge common own).LooksUp key → v.resolve key = w.resolve key) :
    build v p className common own = build w p className common own := by
  generalize hm : EffectiveMetadata.merge common own = m at h
  have htexts : ∀ f ∈ keyTexts, v.resolveOption (f.effective m) = w.resolveOption (f.effective m) :=
    fun f hf => Vocabulary.resolveOption_congr fun key hkey hne =>
      h key ⟨hne, .inl (EffectiveMetadata.mem_values hf hkey)⟩
  have hlists : ∀ f ∈ keyLists, v.resolveList (f.effective m) = w.resolveList (f.effective m) :=
    fun f hf => Vocabulary.resolveList_congr fun keys hkeys key hkey hne =>
      h key ⟨hne, .inr (.inl ⟨keys, EffectiveMetadata.mem_values hf hkeys, hkey⟩)⟩
  have htagsets : ∀ f ∈ tagsetLists,
      v.tagsets ((f.effective m).getD []) = w.tagsets ((f.effective m).getD []) :=
    fun f hf => Vocabulary.tagsets_congr fun entries hentries entry hentry key hword =>
      h key ⟨hword.ne_empty,
        .inr (.inr ⟨entries, EffectiveMetadata.mem_values hf hentries, entry, hentry, hword⟩)⟩
  simp only [keyTexts, keyLists, tagsetLists, List.forall_mem_cons] at htexts hlists htagsets
  obtain ⟨hlicense, hallow, hinputEncoding, houtputEncoding, -⟩ := htexts
  obtain ⟨hinputLanguage, houtputLanguage, hinputFormat, houtputFormat, hrequires, hproduces, -⟩ :=
    hlists
  obtain ⟨hrequiresTagsets, hproducesTagsets, -⟩ := htagsets
  have hinput : m.input v = m.input w := by
    simp only [EffectiveMetadata.input, hinputFormat, hinputLanguage, hinputEncoding, hrequires,
      hrequiresTagsets]
  have houtput : m.output v = m.output w := by
    simp only [EffectiveMetadata.output, houtputFormat, houtputLanguage, houtputEncoding, hproduces,
      hproducesTagsets]
  simp only [build, hm, hlicense, hallow, hinput, houtput]

theorem DataSourceDescriptor.build_congr {r : DataSourceRecord}
    (h : ∀ key, r.LooksUp key → v.resolve key = w.resolve key) :
    build v p className r = build w p className r := by
  have htexts : ∀ key ∈ [r.license, r.allow, r.encoding], v.resolve? key = w.resolve? key :=
    fun key hkey => Vocabulary.resolve?_congr fun hne => h key ⟨hne, .inl hkey⟩
  have hlists : ∀ keys ∈ [r.language, r.format], v.resolveAll keys = w.resolveAll keys :=
    fun keys hkeys => Vocabulary.resolveAll_congr fun key hkey hne =>
      h key ⟨hne, .inr (.inl ⟨keys, hkeys, hkey⟩)⟩
  simp only [List.forall_mem_cons] at htexts hlists
  obtain ⟨hlicense, hallow, hencoding, -⟩ := htexts
  obtain ⟨hlanguage, hformat, -⟩ := hlists
  simp only [build, hlicense, hallow, hencoding, hlanguage, hformat]

def ServiceDescriptor.told (d : ServiceDescriptor) : ServiceDescriptor :=
  { d with license := none, allow := none, requires := {}, produces := {} }

def DataSourceDescriptor.told (d : DataSourceDescriptor) : DataSourceDescriptor :=
  { d with license := none, allow := none, encoding := none, language := [], format := [] }

/-- A layer that has none of the keys for a name changes no descriptor, whatever its URIs are and
whatever names and URIs of the vocabulary below it takes over. Schema, name, description, version,
vendor and the description of the license are the same over any two vocabularies. -/
theorem build_extend_unmentioned (hv : Vocabulary.Reachable v) (w : Vocabulary) (p : Project)
    (className : String) :
    (∀ common own,
      (∀ e ∈ w.entries, ¬ (EffectiveMetadata.merge common own).LooksUp e.name) →
        ServiceDescriptor.build (v.extend w) p className common own =
          ServiceDescriptor.build v p className common own) ∧
      (∀ common own,
        (∀ e ∈ w.entries, ∀ r ∈ own :: common.toList, ¬ r.Mentions e.name) →
          ServiceDescriptor.build (v.extend w) p className common own =
            ServiceDescriptor.build v p className common own) ∧
      (∀ r : DataSourceRecord, (∀ e ∈ w.entries, ¬ r.LooksUp e.name) →
        DataSourceDescriptor.build (v.extend w) p className r =
          DataSourceDescriptor.build v p className r) ∧
      (∀ v' common own, (ServiceDescriptor.build v' p className common own).told =
        (ServiceDescriptor.build v p className common own).told) ∧
      ∀ v' r, (DataSourceDescriptor.build v' p className r).told =
        (DataSourceDescriptor.build v p className r).told := by
  have hframe : ∀ key, (∀ e ∈ w.entries, e.name ≠ key) →
      (v.extend w).resolve key = v.resolve key :=
    fun _ => Vocabulary.resolve_extend_of_unnamed hv.indexed
  have hservice : ∀ common own,
      (∀ e ∈ w.entries, ¬ (EffectiveMetadata.merge common own).LooksUp e.name) →
        ServiceDescriptor.build (v.extend w) p className common own =
          ServiceDescriptor.build v p className common own := by
    intro common own h
    refine ServiceDescriptor.build_congr fun key hkey => hframe key fun e he hname => ?_
    exact h e he (hname ▸ hkey)
  refine ⟨hservice, fun common own h => hservice common own fun e he hkey => ?_, fun r h => ?_,
    fun _ _ _ => rfl, fun _ _ => rfl⟩
  · obtain ⟨r, hr, hmentions⟩ := hkey.mentioned
    exact h e he r hr hmentions
  · refine DataSourceDescriptor.build_congr fun key hkey => hframe key fun e he hname => ?_
    exact h e he (hname ▸ hkey)

def takeover : Vocabulary :=
  .ofEntries [⟨"english", "en"⟩, ⟨"gpl", "text"⟩,
    ⟨"mine", "http://vocab.lappsgrid.org/ns/license#apache-2.0"⟩]

def mentioning : ServiceRecord where
  license := "apache2"
  language := ["en"]
  format := ["text", ""]
  requiresTagsets := ["pos tags-pos-ud", "gpl"]

theorem build_extend_unmentioned_of_takeover :
    Vocabulary.Reachable .standard ∧
      (∀ e ∈ takeover.entries, ¬ (EffectiveMetadata.merge none mentioning).LooksUp e.name) ∧
      (EffectiveMetadata.merge none mentioning).LooksUp "en" ∧
      ServiceDescriptor.build (Vocabulary.standard.extend takeover) emptyProject "a.A" none mentioning =
        ServiceDescriptor.build .standard emptyProject "a.A" none mentioning := by
  have hkeys : ∀ e ∈ takeover.entries,
      ¬ (EffectiveMetadata.merge none mentioning).LooksUp e.name := by decide +kernel
  refine ⟨.standard, hkeys, by decide +kernel, ?_⟩
  exact (build_extend_unmentioned .standard takeover emptyProject "a.A").1 none mentioning hkeys

end ServiceMetadata
