import ServiceMetadata.Vocabulary.File
import ServiceMetadata.Vocabulary.Standard

/-!
# The indexes of a vocabulary

Both indexes agree with the table after every history of insertions and extensions: the index of
names has exactly the names of the entries, each with its place, and the index of URIs has exactly
the URIs of the entries, each with the place of an entry that carries it. So no lookup leaves the
table, and a URI is found just if an entry has it.
-/
namespace ServiceMetadata

namespace EntryIndex

theorem lookup_cons (key key' : String) (i : Nat) (index : EntryIndex) :
    List.lookup key' ((key, i) :: index) = if key' = key then some i else index.lookup key' := by
  rw [List.lookup_cons]
  by_cases h : key' = key
  · simp [h]
  · simp [h, beq_eq_false_iff_ne.2 h]

theorem lookup_erase (index : EntryIndex) (key key' : String) :
    (index.erase key).lookup key' = if key' = key then none else index.lookup key' := by
  induction index with
  | nil => simp [erase]
  | cons row rest ih =>
    obtain ⟨name, i⟩ := row
    unfold erase at ih ⊢
    by_cases hrow : name = key
    · rw [List.filter_cons_of_neg (by simpa using hrow), ih, lookup_cons, hrow]
      split <;> rfl
    · rw [List.filter_cons_of_pos (by simpa using hrow), lookup_cons, ih, lookup_cons]
      by_cases hkey : key' = name
      · rw [if_pos hkey, if_pos hkey, if_neg (hkey ▸ hrow)]
      · rw [if_neg hkey, if_neg hkey]

theorem lookup_set (index : EntryIndex) (key key' : String) (i : Nat) :
    (index.set key i).lookup key' = if key' = key then some i else index.lookup key' := by
  rw [set, lookup_cons, lookup_erase]
  split <;> rfl

end EntryIndex

namespace Vocabulary
open EntryIndex (lookup_erase lookup_set)

variable {v w : Vocabulary} {e old : VocabularyEntry} {i : Nat}

theorem insert_of_new (h : v.places.lookup e.name = none) :
    v.insert e =
      { entries := v.entries ++ [e]
        places := v.places.set e.name v.entries.length
        holders := v.holders.set e.uri v.entries.length } := by
  simp only [insert, h]

theorem insert_of_old (h : v.places.lookup e.name = some i) (hi : v.entries[i]? = some old) :
    v.insert e =
      { v with
        entries := v.entries.set i e
        holders := (release v.holders (v.entries.set i e) old.uri i).set e.uri i } := by
  simp only [insert, h, hi]

structure Indexed (v : Vocabulary) : Prop where
  nodup_names : (v.entries.map (·.name)).Nodup
  places_iff : ∀ name i, v.places.lookup name = some i ↔
    ∃ e, v.entries[i]? = some e ∧ e.name = name
  holders_iff : ∀ uri, (v.holders.lookup uri).isSome ↔ ∃ e ∈ v.entries, e.uri = uri
  holder_uri : ∀ uri i, v.holders.lookup uri = some i → ∃ e, v.entries[i]? = some e ∧ e.uri = uri

theorem Indexed.places_eq_none_iff (hv : v.Indexed) (name : String) :
    v.places.lookup name = none ↔ ∀ e ∈ v.entries, e.name ≠ name := by
  constructor
  · intro hnone e he hname
    obtain ⟨i, hi⟩ := List.mem_iff_getElem?.1 he
    have hsome := (hv.places_iff name i).2 ⟨e, hi, hname⟩
    simp [hnone] at hsome
  · intro hall
    rw [Option.eq_none_iff_forall_ne_some]
    intro i hi
    obtain ⟨e, he, hname⟩ := (hv.places_iff name i).1 hi
    exact hall e (List.mem_of_getElem? he) hname

theorem empty_indexed : empty.Indexed where
  nodup_names := by simp [empty]
  places_iff := by simp [empty]
  holders_iff := by simp [empty]
  holder_uri := by simp [empty]

theorem firstWithUri_uri {es : List VocabularyEntry} {uri : String}
    (h : firstWithUri es uri = some i) : ∃ e, es[i]? = some e ∧ e.uri = uri := by
  obtain ⟨hlt, huri, -⟩ := List.findIdx?_eq_some_iff_getElem.1 h
  exact ⟨es[i], List.getElem?_eq_getElem hlt, by simpa using huri⟩

theorem firstWithUri_isSome (es : List VocabularyEntry) (uri : String) :
    (firstWithUri es uri).isSome ↔ ∃ e ∈ es, e.uri = uri := by
  simp [firstWithUri, List.findIdx?_isSome]

theorem lookup_release (holders : EntryIndex) (es : List VocabularyEntry) (uri uri' : String)
    (i : Nat) :
    (release holders es uri i).lookup uri' =
      if holders.lookup uri = some i ∧ uri' = uri then firstWithUri es uri
      else holders.lookup uri' := by
  unfold release
  by_cases hheld : holders.lookup uri = some i
  · rw [if_pos hheld]
    cases hfirst : firstWithUri es uri with
    | some j => simp [lookup_set, hheld]
    | none => simp [lookup_erase, hheld]
  · rw [if_neg hheld, if_neg fun h => hheld h.1]

theorem getElem?_concat_iff {es : List VocabularyEntry} {e' : VocabularyEntry} :
    (es ++ [e])[i]? = some e' ↔ es[i]? = some e' ∨ i = es.length ∧ e = e' := by
  rcases Nat.lt_trichotomy i es.length with h | h | h
  · simp [List.getElem?_append_left h, Nat.ne_of_lt h]
  · simp [h]
  · rw [List.getElem?_eq_none (by simp; omega), List.getElem?_eq_none (by omega)]
    simp
    omega

theorem getElem?_set_iff {es : List VocabularyEntry} {j : Nat} {e' : VocabularyEntry}
    (hi : es[i]? = some old) :
    (es.set i e)[j]? = some e' ↔ j = i ∧ e = e' ∨ j ≠ i ∧ es[j]? = some e' := by
  have hlt := (List.getElem?_eq_some_iff.1 hi).1
  rw [List.getElem?_set]
  by_cases h : i = j
  · simp [h, h ▸ hlt]
  · simp [h, Ne.symm h]

theorem insert_new_indexed (hv : v.Indexed) (h : v.places.lookup e.name = none) :
    (v.insert e).Indexed := by
  have hfresh := (hv.places_eq_none_iff e.name).1 h
  rw [insert_of_new h]
  refine ⟨?_, fun name i => ?_, fun uri => ?_, fun uri i hi => ?_⟩
  · rw [List.map_append, List.nodup_append]
    refine ⟨hv.nodup_names, by simp, ?_⟩
    intro name hname name' hname' heq
    obtain ⟨e', he', rfl⟩ := List.mem_map.1 hname
    exact hfresh e' he' (heq.trans (by simpa using hname'))
  · simp only [lookup_set, getElem?_concat_iff]
    by_cases hname : name = e.name
    · rw [if_pos hname]
      constructor
      · intro hi
        exact ⟨e, .inr ⟨(Option.some.inj hi).symm, rfl⟩, hname.symm⟩
      · rintro ⟨e', he' | ⟨rfl, -⟩, hname'⟩
        · exact absurd (hname'.trans hname) (hfresh e' (List.mem_of_getElem? he'))
        · rfl
    · rw [if_neg hname, hv.places_iff]
      constructor
      · rintro ⟨e', he', hname'⟩
        exact ⟨e', .inl he', hname'⟩
      · rintro ⟨e', he' | ⟨-, rfl⟩, hname'⟩
        · exact ⟨e', he', hname'⟩
        · exact absurd hname'.symm hname
  · simp only [lookup_set, List.mem_append, List.mem_singleton]
    by_cases huri : uri = e.uri
    · rw [if_pos huri]
      exact ⟨fun _ => ⟨e, .inr rfl, huri.symm⟩, fun _ => rfl⟩
    · rw [if_neg huri, hv.holders_iff]
      constructor
      · rintro ⟨e', he', huri'⟩
        exact ⟨e', .inl he', huri'⟩
      · rintro ⟨e', he' | rfl, huri'⟩
        · exact ⟨e', he', huri'⟩
        · exact absurd huri'.symm huri
  · simp only [lookup_set] at hi
    simp only [getElem?_concat_iff]
    split at hi
    · rename_i huri
      exact ⟨e, .inr ⟨(Option.some.inj hi).symm, rfl⟩, huri.symm⟩
    · obtain ⟨e', he', huri'⟩ := hv.holder_uri uri i hi
      exact ⟨e', .inl he', huri'⟩

theorem Indexed.holder_stays (hv : v.Indexed) (hi : v.entries[i]? = some old) {uri : String}
    {j : Nat} (hheld : ¬(v.holders.lookup old.uri = some i ∧ uri = old.uri))
    (hj : v.holders.lookup uri = some j) :
    ∃ e', (v.entries.set i e)[j]? = some e' ∧ e'.uri = uri := by
  obtain ⟨e', he', huri⟩ := hv.holder_uri uri j hj
  have hij : j ≠ i := by
    rintro rfl
    obtain rfl : old = e' := Option.some.inj (hi.symm.trans he')
    exact hheld ⟨huri ▸ hj, huri.symm⟩
  exact ⟨e', (getElem?_set_iff hi).2 (.inr ⟨hij, he'⟩), huri⟩

theorem map_name_set {es : List VocabularyEntry} (hi : es[i]? = some old)
    (hname : old.name = e.name) : (es.set i e).map (·.name) = es.map (·.name) := by
  obtain ⟨hlt, hget⟩ := List.getElem?_eq_some_iff.1 hi
  have hlt' : i < (es.map (·.name)).length := by simpa
  have hsame : (es.map (·.name))[i] = e.name := by simp [hget, hname]
  rw [List.map_set, ← hsame, List.set_getElem_self]

theorem insert_old_indexed (hv : v.Indexed) (h : v.places.lookup e.name = some i) :
    (v.insert e).Indexed := by
  obtain ⟨old, hi, hold⟩ := (hv.places_iff e.name i).1 h
  have hlt := (List.getElem?_eq_some_iff.1 hi).1
  rw [insert_of_old h hi]
  refine ⟨?_, fun name j => ?_, fun uri => ?_, fun uri j hj => ?_⟩
  · rw [map_name_set hi hold]
    exact hv.nodup_names
  · simp only [hv.places_iff, getElem?_set_iff hi]
    constructor
    · rintro ⟨e', he', hname⟩
      by_cases hij : j = i
      · subst hij
        obtain rfl : old = e' := Option.some.inj (hi.symm.trans he')
        exact ⟨e, .inl ⟨rfl, rfl⟩, hold.symm.trans hname⟩
      · exact ⟨e', .inr ⟨hij, he'⟩, hname⟩
    · rintro ⟨e', ⟨rfl, rfl⟩ | ⟨-, he'⟩, hname⟩
      · exact ⟨old, hi, hold.trans hname⟩
      · exact ⟨e', he', hname⟩
  · simp only [lookup_set, lookup_release]
    by_cases huri : uri = e.uri
    · rw [if_pos huri]
      exact ⟨fun _ => ⟨e, List.mem_set hlt e, huri.symm⟩, fun _ => rfl⟩
    rw [if_neg huri]
    by_cases hheld : v.holders.lookup old.uri = some i ∧ uri = old.uri
    · -- entry `i` leaves this URI, and another entry answers for it just if one still carries it
      rw [if_pos hheld, hheld.2]
      exact firstWithUri_isSome _ _
    rw [if_neg hheld]
    constructor
    · intro hsome
      obtain ⟨j, hj⟩ := Option.isSome_iff_exists.1 hsome
      obtain ⟨e', he', huri'⟩ := hv.holder_stays hi hheld hj
      exact ⟨e', List.mem_of_getElem? he', huri'⟩
    · rintro ⟨e', he', huri'⟩
      rcases List.mem_or_eq_of_mem_set he' with he' | rfl
      · exact (hv.holders_iff uri).2 ⟨e', he', huri'⟩
      · exact absurd huri'.symm huri
  · simp only [lookup_set, lookup_release] at hj
    split at hj
    · rename_i huri
      exact ⟨e, (getElem?_set_iff hi).2 (.inl ⟨(Option.some.inj hj).symm, rfl⟩), huri.symm⟩
    split at hj
    · rename_i hheld
      rw [hheld.2]
      exact firstWithUri_uri hj
    · rename_i hheld
      exact hv.holder_stays hi hheld hj

theorem Indexed.insert (hv : v.Indexed) (e : VocabularyEntry) : (v.insert e).Indexed := by
  cases h : v.places.lookup e.name with
  | none => exact insert_new_indexed hv h
  | some i => exact insert_old_indexed hv h

theorem Indexed.insertAll (hv : v.Indexed) (es : List VocabularyEntry) :
    (v.insertAll es).Indexed := by
  induction es generalizing v with
  | nil => exact hv
  | cons e es ih => exact ih (hv.insert e)

/-- What a program can build: it starts from nothing or from the standard vocabulary, adds entries,
and lays over it another such vocabulary or a file that it has loaded. -/
inductive Reachable : Vocabulary → Prop
  | empty : Reachable empty
  | standard : Reachable standard
  | insert {v : Vocabulary} (hv : Reachable v) (e : VocabularyEntry) : Reachable (v.insert e)
  | extend {v w : Vocabulary} (hv : Reachable v) (hw : Reachable w) : Reachable (v.extend w)
  | extendFile {v w : Vocabulary} (hv : Reachable v) {t : FileTree} {path : String}
      (hw : load t path = .ok w) : Reachable (v.extend w)

theorem Reachable.indexed (h : Reachable v) : v.Indexed := by
  induction h with
  | empty => exact empty_indexed
  | standard => exact empty_indexed.insertAll _
  | insert _ e ih => exact ih.insert e
  | extend _ _ ihv _ => exact ihv.insertAll _
  | extendFile _ _ ih => exact ih.insertAll _

theorem Indexed.place_lt (hv : v.Indexed) {name : String}
    (h : v.places.lookup name = some i) : i < v.entries.length := by
  obtain ⟨e, he, -⟩ := (hv.places_iff name i).1 h
  exact (List.getElem?_eq_some_iff.1 he).1

theorem Indexed.holder_lt (hv : v.Indexed) {uri : String}
    (h : v.holders.lookup uri = some i) : i < v.entries.length := by
  obtain ⟨e, he, -⟩ := hv.holder_uri uri i h
  exact (List.getElem?_eq_some_iff.1 he).1

theorem Indexed.getByName_iff (hv : v.Indexed) (name : String) (e : VocabularyEntry) :
    v.getByName name = some e ↔ e ∈ v.entries ∧ e.name = name := by
  rw [getByName, Option.bind_eq_some_iff]
  constructor
  · rintro ⟨i, hi, he⟩
    obtain ⟨e', he', hname⟩ := (hv.places_iff name i).1 hi
    obtain rfl : e = e' := Option.some.inj (he.symm.trans he')
    exact ⟨List.mem_of_getElem? he, hname⟩
  · rintro ⟨hmem, hname⟩
    obtain ⟨i, hi⟩ := List.mem_iff_getElem?.1 hmem
    exact ⟨i, (hv.places_iff name i).2 ⟨e, hi, hname⟩, hi⟩

theorem Indexed.getByUri_uri (hv : v.Indexed) {uri : String} (h : v.getByUri uri = some e) :
    e ∈ v.entries ∧ e.uri = uri := by
  obtain ⟨i, hi, he⟩ := Option.bind_eq_some_iff.1 h
  obtain ⟨e', he', huri⟩ := hv.holder_uri uri i hi
  obtain rfl : e = e' := Option.some.inj (he.symm.trans he')
  exact ⟨List.mem_of_getElem? he, huri⟩

theorem Indexed.getByUri_isSome (hv : v.Indexed) (uri : String) :
    (v.getByUri uri).isSome ↔ ∃ e ∈ v.entries, e.uri = uri := by
  constructor
  · intro h
    obtain ⟨e, he⟩ := Option.isSome_iff_exists.1 h
    exact ⟨e, hv.getByUri_uri he⟩
  · intro h
    obtain ⟨i, hi⟩ := Option.isSome_iff_exists.1 ((hv.holders_iff uri).2 h)
    obtain ⟨e, he, -⟩ := hv.holder_uri uri i hi
    exact Option.isSome_iff_exists.2 ⟨e, Option.bind_eq_some_iff.2 ⟨i, hi, he⟩⟩

theorem Reachable.lookups_agree (h : Reachable v) :
    v.Indexed ∧
      (∀ name i, v.places.lookup name = some i → i < v.entries.length) ∧
      (∀ uri i, v.holders.lookup uri = some i → i < v.entries.length) ∧
      (∀ name e, v.getByName name = some e ↔ e ∈ v.entries ∧ e.name = name) ∧
      (∀ uri, (v.getByUri uri).isSome ↔ ∃ e ∈ v.entries, e.uri = uri) ∧
      ∀ uri e, v.getByUri uri = some e → e ∈ v.entries ∧ e.uri = uri := by
  have hv := h.indexed
  exact ⟨hv, fun _ _ => hv.place_lt, fun _ _ => hv.holder_lt, hv.getByName_iff,
    hv.getByUri_isSome, fun _ _ => hv.getByUri_uri⟩

theorem lookups_agree_after_alias :
    Reachable (standard.insert ⟨"all", "urn:other"⟩) ∧
      (standard.insert ⟨"all", "urn:other"⟩).Indexed ∧
      ((standard.insert ⟨"all", "urn:other"⟩).getByUri
        "http://vocab.lappsgrid.org/ns/allow#any").isSome := by
  have h : Reachable (standard.insert ⟨"all", "urn:other"⟩) := .insert .standard _
  refine ⟨h, h.lookups_agree.1, (h.lookups_agree.2.2.2.2.1 _).2 ?_⟩
  exact ⟨⟨"any", "http://vocab.lappsgrid.org/ns/allow#any"⟩, by decide +kernel, rfl⟩

end Vocabulary
end ServiceMetadata
