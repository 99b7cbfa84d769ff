import ServiceMetadata.Proofs.Vocabulary.Indexes

/-!
# What an insertion changes

An entry that is inserted is found by its name and by its URI. Names keep their places, and all other
names keep their entries. All other URIs keep the entries that answer for them, except a URI for
which the entry of that name has answered: the first entry that still carries it answers for it now,
if there is one.
-/
namespace ServiceMetadata.Vocabulary
open EntryIndex (lookup_set)

variable {v : Vocabulary} {e old : VocabularyEntry} {i : Nat} {uri name : String}

theorem mem_insert_self (hv : v.Indexed) (e : VocabularyEntry) : e ∈ (v.insert e).entries := by
  cases h : v.places.lookup e.name with
  | none => simp [insert_of_new h]
  | some i =>
    obtain ⟨old, hi, -⟩ := (hv.places_iff e.name i).1 h
    rw [insert_of_old h hi]
    exact List.mem_set (List.getElem?_eq_some_iff.1 hi).1 e

theorem getByName_insert_self (hv : v.Indexed) (e : VocabularyEntry) :
    (v.insert e).getByName e.name = some e :=
  ((hv.insert e).getByName_iff e.name e).2 ⟨mem_insert_self hv e, rfl⟩

theorem getByName_insert_of_ne (hv : v.Indexed) (hne : name ≠ e.name) :
    (v.insert e).getByName name = v.getByName name := by
  cases h : v.places.lookup e.name with
  | none =>
    rw [insert_of_new h, getByName, getByName, lookup_set, if_neg hne]
    exact Option.bind_congr fun j hj => List.getElem?_append_left (hv.place_lt hj)
  | some i =>
    obtain ⟨old, hi, hold⟩ := (hv.places_iff e.name i).1 h
    rw [insert_of_old h hi, getByName, getByName]
    refine Option.bind_congr fun j hj => ?_
    obtain ⟨e', he', hname⟩ := (hv.places_iff name j).1 hj
    have hij : i ≠ j := by
      rintro rfl
      obtain rfl : old = e' := Option.some.inj (hi.symm.trans he')
      exact hne (hname.symm.trans hold)
    exact List.getElem?_set_ne hij

theorem bind_firstWithUri (es : List VocabularyEntry) (uri : String) :
    (firstWithUri es uri).bind (es[·]?) = es.find? (·.uri = uri) := by
  induction es with
  | nil => rfl
  | cons e es ih =>
    have hfirst : firstWithUri (e :: es) uri =
        if e.uri = uri then some 0 else (firstWithUri es uri).map (· + 1) := by
      simp [firstWithUri, List.findIdx?_cons]
    by_cases h : e.uri = uri
    · simp [hfirst, h]
    · rw [hfirst, if_neg h, Option.bind_map]
      simpa [Function.comp_def, h] using ih

theorem map_name_insert (hv : v.Indexed) (e : VocabularyEntry) :
    (v.insert e).entries.map (·.name) =
      if e.name ∈ v.entries.map (·.name) then v.entries.map (·.name)
      else v.entries.map (·.name) ++ [e.name] := by
  cases h : v.places.lookup e.name with
  | none =>
    have hnew : e.name ∉ v.entries.map (·.name) := by
      simpa using (hv.places_eq_none_iff e.name).1 h
    rw [if_neg hnew, insert_of_new h, List.map_append, List.map_singleton]
  | some i =>
    obtain ⟨old, hi, hname⟩ := (hv.places_iff e.name i).1 h
    have hmem : e.name ∈ v.entries.map (·.name) :=
      hname ▸ List.mem_map_of_mem (List.mem_of_getElem? hi)
    rw [if_pos hmem, insert_of_old h hi, map_name_set hi hname]

theorem Indexed.holder_iff (hv : v.Indexed) (h : v.places.lookup name = some i) (uri : String) :
    (v.getByUri uri).map (·.name) = some name ↔ v.holders.lookup uri = some i := by
  rw [Option.map_eq_some_iff]
  constructor
  · rintro ⟨e, he, hname⟩
    obtain ⟨j, hj, hget⟩ := Option.bind_eq_some_iff.1 he
    have hplace := (hv.places_iff name j).2 ⟨e, hget, hname⟩
    rw [hj, ← hplace, h]
  · intro hi
    obtain ⟨e, he, hname⟩ := (hv.places_iff name i).1 h
    exact ⟨e, Option.bind_eq_some_iff.2 ⟨i, hi, he⟩, hname⟩

theorem getByUri_insert_self (hv : v.Indexed) (e : VocabularyEntry) :
    (v.insert e).getByUri e.uri = some e := by
  cases h : v.places.lookup e.name with
  | none => simp [insert_of_new h, getByUri, lookup_set]
  | some i =>
    obtain ⟨old, hi, -⟩ := (hv.places_iff e.name i).1 h
    have hlt := (List.getElem?_eq_some_iff.1 hi).1
    simp [insert_of_old h hi, getByUri, lookup_set, hlt]

theorem getByUri_insert_new (hv : v.Indexed) (h : v.places.lookup e.name = none)
    (hne : uri ≠ e.uri) : (v.insert e).getByUri uri = v.getByUri uri := by
  rw [insert_of_new h, getByUri, getByUri, lookup_set, if_neg hne]
  refine Option.bind_congr fun j hj => ?_
  exact List.getElem?_append_left (hv.holder_lt hj)

theorem getByUri_insert_old (hv : v.Indexed) (h : v.places.lookup e.name = some i)
    (hne : uri ≠ e.uri) :
    (v.insert e).getByUri uri =
      if v.holders.lookup uri = some i then (v.insert e).entries.find? (·.uri = uri)
      else v.getByUri uri := by
  obtain ⟨old, hi, -⟩ := (hv.places_iff e.name i).1 h
  have hreleased : v.holders.lookup uri = some i → v.holders.lookup old.uri = some i ∧
      uri = old.uri := by
    intro hheld
    obtain ⟨e', he', huri⟩ := hv.holder_uri uri i hheld
    obtain rfl : old = e' := Option.some.inj (hi.symm.trans he')
    exact ⟨huri ▸ hheld, huri.symm⟩
  rw [insert_of_old h hi, getByUri, lookup_set, if_neg hne, lookup_release]
  by_cases hheld : v.holders.lookup uri = some i
  · rw [if_pos (hreleased hheld), if_pos hheld, ← (hreleased hheld).2]
    exact bind_firstWithUri _ uri
  · -- the entry that is replaced does not answer for this URI, and the one that does stays
    have hkept : ¬ (v.holders.lookup old.uri = some i ∧ uri = old.uri) := by
      rintro ⟨hold, rfl⟩
      exact hheld hold
    rw [if_neg hkept, if_neg hheld, getByUri]
    refine Option.bind_congr fun j hj => ?_
    have hij : i ≠ j := fun hij => hheld (hij ▸ hj)
    exact List.getElem?_set_ne hij

theorem getByUri_insert_of_ne (hv : v.Indexed) (hne : uri ≠ e.uri) :
    (v.insert e).getByUri uri =
      if (v.getByUri uri).map (·.name) = some e.name then
        (v.insert e).entries.find? (·.uri = uri)
      else v.getByUri uri := by
  cases h : v.places.lookup e.name with
  | some i =>
    simp only [getByUri_insert_old hv h hne, hv.holder_iff h]
  | none =>
    have hother : (v.getByUri uri).map (·.name) ≠ some e.name := by
      intro hname
      obtain ⟨e', he', hname⟩ := Option.map_eq_some_iff.1 hname
      exact (hv.places_eq_none_iff e.name).1 h e' (hv.getByUri_uri he').1 hname
    rw [getByUri_insert_new hv h hne, if_neg hother]

/-- What an insertion does to the table and to what is found in it, and that it does nothing else. -/
theorem Reachable.insert_effect (h : Reachable v) (e : VocabularyEntry) :
    (v.insert e).getByName e.name = some e ∧ (v.insert e).getByUri e.uri = some e ∧
      (∀ name, name ≠ e.name → (v.insert e).getByName name = v.getByName name) ∧
      ((v.insert e).entries.map (·.name) =
        if e.name ∈ v.entries.map (·.name) then v.entries.map (·.name)
        else v.entries.map (·.name) ++ [e.name]) ∧
      ((v.insert e).size = if e.name ∈ v.entries.map (·.name) then v.size else v.size + 1) ∧
      ∀ uri, uri ≠ e.uri → (v.insert e).getByUri uri =
        if (v.getByUri uri).map (·.name) = some e.name then
          (v.insert e).entries.find? (·.uri = uri)
        else v.getByUri uri := by
  have hv := h.indexed
  have hnames := map_name_insert hv e
  refine ⟨getByName_insert_self hv e, getByUri_insert_self hv e,
    fun _ => getByName_insert_of_ne hv, hnames, ?_, fun _ => getByUri_insert_of_ne hv⟩
  have hsize := congrArg List.length hnames
  rw [List.length_map] at hsize
  rw [size, hsize]
  split <;> simp [size]

def twoAliases : Vocabulary :=
  ((empty.insert ⟨"any", "urn:any"⟩).insert ⟨"text", "urn:text"⟩).insert ⟨"all", "urn:any"⟩

theorem insert_effect_of_alias :
    Reachable twoAliases ∧ twoAliases.getByUri "urn:any" = some ⟨"all", "urn:any"⟩ ∧
      (twoAliases.insert ⟨"all", "urn:text"⟩).getByUri "urn:any" = some ⟨"any", "urn:any"⟩ ∧
      (twoAliases.insert ⟨"all", "urn:text"⟩).getByUri "urn:text" = some ⟨"all", "urn:text"⟩ ∧
      (twoAliases.insert ⟨"all", "urn:text"⟩).getByName "text" = some ⟨"text", "urn:text"⟩ := by
  have h : Reachable twoAliases := .insert (.insert (.insert .empty _) _) _
  have hholder : twoAliases.getByUri "urn:any" = some ⟨"all", "urn:any"⟩ := by decide
  obtain ⟨-, hself, hname, -, -, hother⟩ := h.insert_effect ⟨"all", "urn:text"⟩
  refine ⟨h, hholder, ?_, hself, (hname "text" (by decide)).trans (by decide)⟩
  rw [hother "urn:any" (by decide), hholder]
  decide

end ServiceMetadata.Vocabulary
