import Mathlib.Data.List.Basic
import ServiceMetadata.Proofs.Vocabulary.Histories

/-!
# Layers of vocabularies

Layers can be joined in any grouping, since a table may be replayed in place of the insertions that
it comes from. Only who answers for a URI of several names can differ, as a table has forgotten which
of its entries came last. A vocabulary that is laid over itself keeps its table and takes up every URI
again in the order of the table.
-/
namespace ServiceMetadata

namespace EntryIndex

variable {index : EntryIndex} {rows : List (String × Nat)}

theorem erase_set (index : EntryIndex) (key : String) (i : Nat) :
    (index.set key i).erase key = index.erase key := by
  simp [set, erase]

theorem set_set (index : EntryIndex) (key : String) (i j : Nat) :
    (index.set key i).set key j = index.set key j := by
  rw [set, erase_set, set]

theorem set_erase (index : EntryIndex) (key : String) (i : Nat) :
    (index.erase key).set key i = index.set key i := by
  simp [set, erase]

def setAll (index : EntryIndex) (rows : List (String × Nat)) : EntryIndex :=
  rows.foldl (fun index row => index.set row.1 row.2) index

theorem setAll_concat (index : EntryIndex) (rows : List (String × Nat)) (row : String × Nat) :
    index.setAll (rows ++ [row]) = (index.setAll rows).set row.1 row.2 :=
  List.foldl_append

theorem setAll_eq_append (index : EntryIndex) (rows : List (String × Nat)) :
    index.setAll rows = setAll [] rows ++ index.filter fun row => row.1 ∉ rows.map (·.1) := by
  induction rows using List.reverseRecOn with
  | nil => exact (List.filter_eq_self.2 (by simp)).symm
  | append_singleton rows row ih =>
    have hfilter : EntryIndex.erase (index.filter fun r => r.1 ∉ rows.map (·.1)) row.1 =
        index.filter fun r => r.1 ∉ (rows ++ [row]).map (·.1) := by
      rw [erase, List.filter_filter]
      refine List.filter_congr fun r _ => ?_
      rw [Bool.eq_iff_iff]
      simp [not_or, and_comm]
    rw [setAll_concat, setAll_concat, ih, set, set, ← hfilter, List.cons_append]
    simp only [erase, List.filter_append]

theorem setAll_of_covered (h : ∀ row ∈ index, row.1 ∈ rows.map (·.1)) :
    index.setAll rows = setAll [] rows := by
  rw [setAll_eq_append, List.filter_eq_nil_iff.2 (by simpa using h), List.append_nil]

end EntryIndex

namespace Vocabulary
open EntryIndex (lookup_set)

variable {a b c v w : Vocabulary} {e : VocabularyEntry} {i : Nat}
  {log es es' : List VocabularyEntry}

theorem Tabulates.eq_filterMap (h : Tabulates log es) :
    es = (log.map (·.name)).eraseDups.filterMap (lastOf log) := by
  rw [← h.names, List.filterMap_map]
  exact ((List.filterMap_congr h.last).trans List.filterMap_some).symm

theorem Tabulates.unique (h : Tabulates log es) (h' : Tabulates log es') : es = es' := by
  rw [h.eq_filterMap, h'.eq_filterMap]

/-- The same entries in the same order, which no look-up by name and no resolution can tell apart. -/
structure SameTable (v w : Vocabulary) : Prop where
  entries : v.entries = w.entries
  getByName : ∀ name, v.getByName name = w.getByName name
  resolve : ∀ key, v.resolve key = w.resolve key

theorem Indexed.sameTable (hv : v.Indexed) (hw : w.Indexed) (h : v.entries = w.entries) :
    SameTable v w where
  entries := h
  getByName := hv.getByName_congr hw fun e => by rw [h]
  resolve := hv.resolve_congr hw fun e => by rw [h]

theorem SameTable.isSome_getByUri (h : SameTable v w) (hv : v.Indexed) (hw : w.Indexed)
    (uri : String) : (v.getByUri uri).isSome ↔ (w.getByUri uri).isSome := by
  rw [hv.getByUri_isSome, hw.getByUri_isSome, h.entries]

theorem History.extend_assoc {logA logB logC : List VocabularyEntry} (ha : History a logA)
    (hb : History b logB) (hc : History c logC) :
    ((a.extend b).extend c).entries = (a.extend (b.extend c)).entries := by
  have hleft := ((ha.extend hb).extend hc).tabulates
  have hright := (ha.extend (hb.extend hc)).tabulates
  rw [List.append_assoc] at hleft
  exact hleft.unique hright

theorem History.empty_extend (ha : History a log) : (Vocabulary.empty.extend a).entries = a.entries :=
  (History.empty.extend ha).tabulates.unique ha.tabulates

theorem insert_of_mem (hv : v.Indexed) (hi : v.entries[i]? = some e) :
    v.insert e = { v with holders := v.holders.set e.uri i } := by
  have hplace := (hv.places_iff e.name i).2 ⟨e, hi, rfl⟩
  obtain ⟨hlt, hget⟩ := List.getElem?_eq_some_iff.1 hi
  have hentries : v.entries.set i e = v.entries := by
    rw [← hget, List.set_getElem_self]
  have hholders : (release v.holders v.entries e.uri i).set e.uri i = v.holders.set e.uri i := by
    unfold release
    split
    · split
      · exact EntryIndex.set_set _ _ _ _
      · exact EntryIndex.set_erase _ _ _
    · rfl
  rw [insert_of_old hplace hi, hentries, hholders]

def rowOf (v : Vocabulary) (e : VocabularyEntry) : String × Nat :=
  (e.uri, (v.places.lookup e.name).getD 0)

theorem rowOf_eq (hv : v.Indexed) (hi : v.entries[i]? = some e) : v.rowOf e = (e.uri, i) := by
  rw [rowOf, (hv.places_iff e.name i).2 ⟨e, hi, rfl⟩]
  rfl

theorem insertAll_of_mem (hv : v.Indexed) (h : ∀ e ∈ es, e ∈ v.entries) :
    v.insertAll es = { v with holders := v.holders.setAll (es.map v.rowOf) } := by
  induction es using List.reverseRecOn with
  | nil => rfl
  | append_singleton es e ih =>
    have hes := ih fun e' he' => h e' (List.mem_append_left _ he')
    have hindexed : (v.insertAll es).Indexed := hv.insertAll es
    obtain ⟨i, hi⟩ := List.mem_iff_getElem?.1 (h e (List.mem_append_right _ (by simp)))
    have hstep : v.insertAll (es ++ [e]) = (v.insertAll es).insert e := List.foldl_append
    rw [hes] at hindexed hstep
    rw [hstep, insert_of_mem hindexed hi, List.map_append, List.map_singleton,
      EntryIndex.setAll_concat, rowOf_eq hv hi]

theorem extend_self (hv : v.Indexed) :
    v.extend v = { v with holders := v.holders.setAll (v.entries.map v.rowOf) } :=
  insertAll_of_mem hv fun _ he => he

theorem getByUri_insertAll_of_mem (hv : v.Indexed) (h : ∀ e ∈ es, e ∈ v.entries) (uri : String) :
    (v.insertAll es).getByUri uri =
      ((es.filter (·.uri = uri)).getLast?).or (v.getByUri uri) := by
  induction es using List.reverseRecOn with
  | nil => rfl
  | append_singleton es e ih =>
    have hes : ∀ e' ∈ es, e' ∈ v.entries := fun e' he' => h e' (List.mem_append_left _ he')
    have hindexed : (v.insertAll es).Indexed := hv.insertAll es
    have hentries : (v.insertAll es).entries = v.entries := by rw [insertAll_of_mem hv hes]
    obtain ⟨i, hi⟩ := List.mem_iff_getElem?.1 (h e (List.mem_append_right _ (by simp)))
    rw [← hentries] at hi
    have hstep : v.insertAll (es ++ [e]) = (v.insertAll es).insert e := List.foldl_append
    rw [hstep, insert_of_mem hindexed hi, getByUri, lookup_set]
    by_cases huri : e.uri = uri
    · simp [huri, hi]
    · rw [if_neg (Ne.symm huri)]
      simpa [huri, getByUri] using ih hes

theorem getByUri_extend_self (hv : v.Indexed) (uri : String) :
    (v.extend v).getByUri uri = (v.entries.filter (·.uri = uri)).getLast? := by
  rw [extend, getByUri_insertAll_of_mem hv fun _ he => he]
  cases hlast : (v.entries.filter (·.uri = uri)).getLast? with
  | some e => rfl
  | none =>
    -- no entry carries the URI, so none has answered for it before
    rw [Option.none_or, ← Option.not_isSome_iff_eq_none, hv.getByUri_isSome]
    rintro ⟨e, he, huri⟩
    have hnil := List.getLast?_eq_none_iff.1 hlast
    exact List.filter_eq_nil_iff.1 hnil e he (by simpa using huri)

theorem Indexed.holders_covered (hv : v.Indexed) :
    ∀ row ∈ v.holders, row.1 ∈ (v.entries.map v.rowOf).map (·.1) := by
  intro row hrow
  obtain ⟨e, he, huri⟩ := (hv.holders_iff row.1).1
    (List.lookup_isSome_iff.2 ⟨row, hrow, by simp⟩)
  rw [List.map_map]
  exact List.mem_map.2 ⟨e, he, huri⟩

theorem extend_self_extend_self (hv : v.Indexed) :
    (v.extend v).extend (v.extend v) = v.extend v := by
  have hself := extend_self hv
  have hindexed : (v.extend v).Indexed := hv.insertAll _
  have hcovered := hindexed.holders_covered
  have hagain := extend_self hindexed
  rw [hself] at hagain hcovered ⊢
  have hfresh : v.holders.setAll (v.entries.map v.rowOf) =
      EntryIndex.setAll [] (v.entries.map v.rowOf) := EntryIndex.setAll_of_covered hv.holders_covered
  rw [hagain, hfresh]
  congr 1
  exact EntryIndex.setAll_of_covered (hfresh ▸ hcovered)

/-- Layers may be grouped as one likes, the empty vocabulary adds nothing above or below another, and
a vocabulary over itself only has its URIs answered for by their last entries, once and for all. -/
theorem Reachable.extend_laws (ha : Reachable a) (hb : Reachable b) (hc : Reachable c) :
    SameTable ((a.extend b).extend c) (a.extend (b.extend c)) ∧
      (∀ uri, (((a.extend b).extend c).getByUri uri).isSome ↔
        ((a.extend (b.extend c)).getByUri uri).isSome) ∧
      SameTable (Vocabulary.empty.extend a) a ∧ a.extend Vocabulary.empty = a ∧
      SameTable (a.extend a) a ∧
      (∀ uri, (a.extend a).getByUri uri = (a.entries.filter (·.uri = uri)).getLast?) ∧
      (a.extend a).extend (a.extend a) = a.extend a ∧ (a.extend a).extend a = a.extend a := by
  obtain ⟨logA, hlogA⟩ := ha.exists_history
  obtain ⟨logB, hlogB⟩ := hb.exists_history
  obtain ⟨logC, hlogC⟩ := hc.exists_history
  have hleft := ((ha.extend hb).extend hc).indexed
  have hright := (ha.extend (hb.extend hc)).indexed
  have hassoc := hleft.sameTable hright (hlogA.extend_assoc hlogB hlogC)
  have hself : (a.extend a).entries = a.entries := by rw [extend_self ha.indexed]
  have htwice := extend_self_extend_self ha.indexed
  have hagain : (a.extend a).extend a = (a.extend a).extend (a.extend a) :=
    congrArg (a.extend a).insertAll hself.symm
  exact ⟨hassoc, hassoc.isSome_getByUri hleft hright,
    (Reachable.empty.extend ha).indexed.sameTable ha.indexed hlogA.empty_extend, rfl,
    (ha.extend ha).indexed.sameTable ha.indexed hself, getByUri_extend_self ha.indexed,
    htwice, hagain.trans htwice⟩

def sharedUri : Vocabulary := (empty.insert ⟨"y", "urn:u"⟩).insert ⟨"z", "urn:u"⟩

def rebound : Vocabulary := (empty.insert ⟨"x", "urn:w"⟩).insert ⟨"y", "urn:u"⟩

def below : Vocabulary := (empty.insert ⟨"x", "urn:v"⟩).insert ⟨"z", "urn:w"⟩

theorem extend_laws_of_shared_uri :
    Reachable below ∧ Reachable sharedUri ∧ Reachable rebound ∧
      ((below.extend sharedUri).extend rebound).entries =
        (below.extend (sharedUri.extend rebound)).entries ∧
      ((below.extend sharedUri).extend rebound).getByUri "urn:u" = some ⟨"y", "urn:u"⟩ ∧
      (below.extend (sharedUri.extend rebound)).getByUri "urn:u" = some ⟨"z", "urn:u"⟩ ∧
      (sharedUri.extend sharedUri).getByUri "urn:u" = some ⟨"z", "urn:u"⟩ := by
  have ha : Reachable below := .insert (.insert .empty _) _
  have hb : Reachable sharedUri := .insert (.insert .empty _) _
  have hc : Reachable rebound := .insert (.insert .empty _) _
  obtain ⟨hassoc, -⟩ := ha.extend_laws hb hc
  obtain ⟨-, -, -, -, -, hlast, -⟩ := hb.extend_laws hb hb
  exact ⟨ha, hb, hc, hassoc.entries, by decide, by decide, (hlast "urn:u").trans (by decide)⟩

end Vocabulary
end ServiceMetadata
