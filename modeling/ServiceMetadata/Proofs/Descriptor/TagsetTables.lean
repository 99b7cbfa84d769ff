import ServiceMetadata.Proofs.Descriptor.RoundTrip
import ServiceMetadata.Proofs.Text.SortedTables
import ServiceMetadata.Proofs.Vocabulary.Tagsets

/-!
# Which tagset an annotation type gets

An entry counts if it is two words, however they are spaced. Of the entries whose first words resolve
to one annotation type the last gives the tagset, so entries can be dropped and exchanged without a
trace unless two of them disagree. A descriptor shows the table with its keys in increasing order.
-/
namespace ServiceMetadata
open ServiceMetadata.Text (SortedTable SpacedOut)

namespace Vocabulary

variable {v : Vocabulary} {entry k u : String} {entries : List String}

def IsPair (entry kind tagset : String) : Prop :=
  SpacedOut [kind.toList, tagset.toList] entry.toList

def Assigns (v : Vocabulary) (entry k u : String) : Prop :=
  ∃ kind tagset, IsPair entry kind tagset ∧ v.resolve kind = k ∧ v.resolve tagset = u

theorem tagsetRow?_of_isPair {kind tagset : String} (h : IsPair entry kind tagset) :
    v.tagsetRow? entry = some (v.resolve kind, v.resolve tagset) := by
  rw [tagsetRow?, (Text.words_eq_iff _ _).2 h]
  simp

theorem exists_isPair_of_tagsetRow? {row : String × String} (h : v.tagsetRow? entry = some row) :
    ∃ kind tagset, IsPair entry kind tagset ∧ row = (v.resolve kind, v.resolve tagset) := by
  unfold tagsetRow? at h
  split at h
  · rename_i kind tagset hwords
    refine ⟨String.ofList kind, String.ofList tagset, ?_, (Option.some.inj h).symm⟩
    rw [IsPair, String.toList_ofList, String.toList_ofList, ← Text.words_eq_iff]
    exact hwords
  · simp at h

theorem tagsetRow?_eq_some_iff : v.tagsetRow? entry = some (k, u) ↔ v.Assigns entry k u := by
  constructor
  · intro h
    obtain ⟨kind, tagset, hpair, hrow⟩ := exists_isPair_of_tagsetRow? h
    obtain ⟨rfl, rfl⟩ := Prod.mk.inj hrow
    exact ⟨kind, tagset, hpair, rfl, rfl⟩
  · rintro ⟨kind, tagset, hpair, rfl, rfl⟩
    exact tagsetRow?_of_isPair hpair

theorem tagsetRow?_of_length_ne {words : List (List Char)} (h : SpacedOut words entry.toList)
    (hlength : words.length ≠ 2) : v.tagsetRow? entry = none := by
  cases hrow : v.tagsetRow? entry with
  | none => rfl
  | some row =>
    obtain ⟨kind, tagset, hpair, -⟩ := exists_isPair_of_tagsetRow? hrow
    have hwords := ((Text.words_eq_iff _ _).2 h).symm.trans ((Text.words_eq_iff _ _).2 hpair)
    rw [hwords] at hlength
    exact absurd rfl hlength

theorem tagsets_drop (before after : List String) (h : v.tagsetRow? entry = none) :
    v.tagsets (before ++ entry :: after) = v.tagsets (before ++ after) := by
  rw [tagsets, tagsets, List.filterMap_append, List.filterMap_append, List.filterMap_cons_none h]

theorem get?_tagsets_append (entries entries' : List String) (k : String) :
    (v.tagsets (entries ++ entries')).get? k =
      ((v.tagsets entries').get? k).or ((v.tagsets entries).get? k) := by
  simp only [tagsets, SortedTable.get?_ofRows, List.filterMap_append, List.reverse_append,
    List.lookup_append]

theorem get?_tagsets_singleton : (v.tagsets [entry]).get? k = some u ↔ v.Assigns entry k u := by
  rw [← tagsetRow?_eq_some_iff, SortedTable.get?_eq_some_iff, tagsets, SortedTable.mem_ofRows_iff]
  cases hrow : v.tagsetRow? entry with
  | none => simp [hrow]
  | some row =>
    obtain ⟨key, value⟩ := row
    by_cases hk : k = key
    · simp [hrow, hk]
    · simp [hrow, Ne.symm hk, beq_eq_false_iff_ne.2 hk]

theorem get?_tagsets_eq_none_iff :
    (v.tagsets entries).get? k = none ↔ ∀ entry ∈ entries, ∀ u, ¬ v.Assigns entry k u := by
  rw [tagsets, SortedTable.get?_ofRows_eq_none_iff, List.mem_map]
  constructor
  · intro h entry hentry u hassigns
    exact h ⟨(k, u), List.mem_filterMap.2 ⟨entry, hentry, tagsetRow?_eq_some_iff.2 hassigns⟩, rfl⟩
  · rintro h ⟨⟨key, u⟩, hrow, rfl⟩
    obtain ⟨entry, hentry, hsome⟩ := List.mem_filterMap.1 hrow
    exact h entry hentry u (tagsetRow?_eq_some_iff.1 hsome)

theorem get?_tagsets_isSome_iff :
    ((v.tagsets entries).get? k).isSome ↔ ∃ entry ∈ entries, ∃ u, v.Assigns entry k u := by
  rw [Option.isSome_iff_ne_none, ne_eq, get?_tagsets_eq_none_iff]
  simp

theorem get?_tagsets_eq_some_iff :
    (v.tagsets entries).get? k = some u ↔
      ∃ before entry after, entries = before ++ entry :: after ∧ v.Assigns entry k u ∧
        ∀ later ∈ after, ∀ u', ¬ v.Assigns later k u' := by
  constructor
  · intro h
    induction entries using List.reverseRecOn with
    | nil => simp [tagsets, SortedTable.get?_ofRows] at h
    | append_singleton entries last ih =>
      rw [get?_tagsets_append, Option.or_eq_some_iff] at h
      rcases h with hlast | ⟨hnone, hbefore⟩
      · exact ⟨entries, last, [], rfl, get?_tagsets_singleton.1 hlast, by simp⟩
      · -- the last entry says nothing of `k`, so an earlier one gives the tagset
        obtain ⟨before, entry, after, rfl, hentry, hafter⟩ := ih hbefore
        refine ⟨before, entry, after ++ [last], by simp, hentry, fun later hlater => ?_⟩
        rcases List.mem_append.1 hlater with hlater | hlater
        · exact hafter later hlater
        · exact get?_tagsets_eq_none_iff.1 hnone later hlater
  · rintro ⟨before, entry, after, rfl, hentry, hafter⟩
    have hsplit : before ++ entry :: after = (before ++ [entry]) ++ after := by simp
    rw [hsplit, get?_tagsets_append, get?_tagsets_append, get?_tagsets_eq_none_iff.2 hafter,
      get?_tagsets_singleton.2 hentry]
    rfl

theorem tagsets_swap_ne_iff (before after : List String) (x y : String) :
    v.tagsets (before ++ x :: y :: after) ≠ v.tagsets (before ++ y :: x :: after) ↔
      ∃ k u u', v.Assigns x k u ∧ v.Assigns y k u' ∧ u ≠ u' ∧
        ∀ later ∈ after, ∀ u'', ¬ v.Assigns later k u'' := by
  simp only [← get?_tagsets_eq_none_iff]
  simp only [← tagsetRow?_eq_some_iff]
  cases hx : v.tagsetRow? x with
  | none =>
    have hleft := tagsets_drop before (y :: after) hx
    have hright := tagsets_drop (before ++ [y]) after hx
    simp only [List.append_assoc, List.singleton_append] at hright
    simp [hleft, hright]
  | some rowX =>
    cases hy : v.tagsetRow? y with
    | none =>
      have hleft := tagsets_drop (before ++ [x]) after hy
      have hright := tagsets_drop before (x :: after) hy
      simp only [List.append_assoc, List.singleton_append] at hleft
      simp [hleft, hright]
    | some rowY =>
      have hrows : ∀ {a b rowA rowB}, v.tagsetRow? a = some rowA → v.tagsetRow? b = some rowB →
          v.tagsets (before ++ a :: b :: after) =
            SortedTable.ofRows (before.filterMap v.tagsetRow? ++ rowA :: rowB ::
              after.filterMap v.tagsetRow?) := by
        intro a b rowA rowB ha hb
        rw [tagsets, List.filterMap_append, List.filterMap_cons_some ha,
          List.filterMap_cons_some hb]
      obtain ⟨keyX, valueX⟩ := rowX
      obtain ⟨keyY, valueY⟩ := rowY
      rw [hrows hx hy, hrows hy hx, ne_eq, SortedTable.ofRows_swap_iff, tagsets]
      simp only [SortedTable.get?_ofRows_eq_none_iff, Option.some.injEq, Prod.mk.injEq]
      constructor
      · intro h
        obtain ⟨hkey, hne, hlater⟩ := by simpa only [Classical.not_imp, not_or] using h
        exact ⟨keyX, valueX, valueY, ⟨rfl, rfl⟩, ⟨hkey.symm, rfl⟩, hne, hlater⟩
      · rintro ⟨k, u, u', ⟨rfl, rfl⟩, ⟨rfl, rfl⟩, hne, hlater⟩ h
        exact (h rfl).elim hne hlater

end Vocabulary

namespace Json

variable {ρ : Type} {r : ρ}

def valuesUnder : List String → Value → List Value
  | [], v => [v]
  | name :: path, .object members =>
    (members.filter (·.1 = name)).flatMap fun member => valuesUnder path member.2
  | _ :: _, _ => []

/-- Read as JSON, the text has the table there as an object with increasing keys, unless the table
is empty. -/
def ShowsTable (text : String) (path : List String) (t : SortedTable) : Prop :=
  ∃ value members, Reading.ofString text = { root := Node.ofValue value, more := false } ∧
    valuesUnder path value = (if members.isEmpty then [] else [.object members]) ∧
    (members.map (·.1)).Pairwise (· < ·) ∧
    ∀ key found, (key, found) ∈ members ↔ ∃ s, found = .string s ∧ t.get? key = some s

theorem valuesUnder_write {shape : Shape ρ} (h : shape.Faithful) {f : Field ρ}
    (hf : f ∈ shape.fields) (path : List String) :
    valuesUnder (f.name :: path) (shape.write r) =
      ((f.write r).map (valuesUnder path)).getD [] := by
  have hmembers := filter_membersOf (r := r) h.distinct hf
  rw [membersOf] at hmembers
  rw [Shape.write, valuesUnder, hmembers]
  cases f.write r <;> simp

theorem valuesUnder_someTable {get : ρ → SortedTable} {put : SortedTable → ρ → ρ} {name : String} :
    (((Field.someTable name get put).write r).map (valuesUnder [])).getD [] =
      if (get r).isEmpty then []
      else [.object ((get r).rows.map fun row => (row.1, .string row.2))] := by
  by_cases h : (get r).isEmpty = true <;> simp [Field.someTable, valuesUnder, h]

end Json

namespace ServiceDescriptor

theorem showsTable (d : ServiceDescriptor) {name : String} {get : ServiceDescriptor → IoSpecification}
    {put : IoSpecification → ServiceDescriptor → ServiceDescriptor}
    (hf : Json.Field.someRecord name IoSpecification.shape IoSpecification.isEmpty get put ∈
      shape.fields) :
    Json.ShowsTable (shape.print d) [name, "tagsets"] (get d).tagsets := by
  have hread := Json.reading_pretty _ (shape_faithful.wellSpelled_write d)
  have hio : Json.valuesUnder ["tagsets"] (IoSpecification.shape.write (get d)) = _ :=
    (Json.valuesUnder_write IoSpecification.shape_faithful
      (f := .someTable "tagsets" (·.tagsets) fun v r => { r with tagsets := v })
      (by simp [IoSpecification.shape]) []).trans Json.valuesUnder_someTable
  have hvalues : Json.valuesUnder [name, "tagsets"] (shape.write d) =
      if (get d).tagsets.isEmpty then []
      else [.object ((get d).tagsets.rows.map fun row => (row.1, .string row.2))] := by
    refine (Json.valuesUnder_write shape_faithful hf ["tagsets"]).trans ?_
    cases hempty : (get d).isEmpty with
    | true =>
      have hnone : (get d).tagsets.isEmpty = true := by
        rw [IoSpecification.eq_of_isEmpty _ hempty]
        rfl
      simp [Json.Field.someRecord, hempty, hnone]
    | false => simpa [Json.Field.someRecord, hempty] using hio
  refine ⟨shape.write d, (get d).tagsets.rows.map fun row => (row.1, .string row.2), hread, ?_, ?_,
    fun key found => ?_⟩
  · simpa [SortedTable.isEmpty] using hvalues
  · rw [List.map_map, List.pairwise_map]
    exact (get d).tagsets.sorted
  · rw [List.mem_map]
    constructor
    · rintro ⟨row, hrow, hmember⟩
      obtain ⟨rfl, rfl⟩ := Prod.mk.inj hmember
      exact ⟨row.2, rfl, (SortedTable.get?_eq_some_iff _).2 hrow⟩
    · rintro ⟨s, rfl, hs⟩
      exact ⟨(key, s), (SortedTable.get?_eq_some_iff _).1 hs, rfl⟩

end ServiceDescriptor

/-- The last entry of two words decides on the tagset of the annotation type that its first word
resolves to, and no other entry matters. The table is what the descriptor's text shows. -/
theorem Vocabulary.tagsets_last_pair_wins (v : Vocabulary) :
    (∀ entries k, ((v.tagsets entries).get? k).isSome ↔
        ∃ entry ∈ entries, ∃ u, v.Assigns entry k u) ∧
      (∀ entries k u, (v.tagsets entries).get? k = some u ↔
        ∃ before entry after, entries = before ++ entry :: after ∧ v.Assigns entry k u ∧
          ∀ later ∈ after, ∀ u', ¬ v.Assigns later k u') ∧
      (∀ before entry after words, SpacedOut words entry.toList → words.length ≠ 2 →
        v.tagsets (before ++ entry :: after) = v.tagsets (before ++ after)) ∧
      (∀ entries entries' k, (v.tagsets (entries ++ entries')).get? k =
        ((v.tagsets entries').get? k).or ((v.tagsets entries).get? k)) ∧
      (∀ before after x y,
        v.tagsets (before ++ x :: y :: after) ≠ v.tagsets (before ++ y :: x :: after) ↔
          ∃ k u u', v.Assigns x k u ∧ v.Assigns y k u' ∧ u ≠ u' ∧
            ∀ later ∈ after, ∀ u'', ¬ v.Assigns later k u'') ∧
      ∀ p className common own,
        let m := EffectiveMetadata.merge common own
        let text := ServiceDescriptor.shape.print (ServiceDescriptor.build v p className common own)
        Json.ShowsTable text ["requires", "tagsets"] (v.tagsets (m.requiresTagsets.getD [])) ∧
          Json.ShowsTable text ["produces", "tagsets"] (v.tagsets (m.producesTagsets.getD [])) := by
  refine ⟨fun _ _ => get?_tagsets_isSome_iff, fun _ _ _ => get?_tagsets_eq_some_iff,
    fun _ _ _ _ hwords hlength => tagsets_drop _ _ (tagsetRow?_of_length_ne hwords hlength),
    get?_tagsets_append, tagsets_swap_ne_iff, fun p className common own => ?_⟩
  have hrequires : Json.Field.someRecord "requires" IoSpecification.shape IoSpecification.isEmpty
      (·.requires) (fun io d => { d with requires := io }) ∈ ServiceDescriptor.shape.fields := by
    simp [ServiceDescriptor.shape]
  have hproduces : Json.Field.someRecord "produces" IoSpecification.shape IoSpecification.isEmpty
      (·.produces) (fun io d => { d with produces := io }) ∈ ServiceDescriptor.shape.fields := by
    simp [ServiceDescriptor.shape]
  exact ⟨ServiceDescriptor.showsTable _ hrequires, ServiceDescriptor.showsTable _ hproduces⟩

def aliasedType : Vocabulary :=
  .ofEntries [⟨"pos", "http://x/pos"⟩, ⟨"tag", "http://x/pos"⟩, ⟨"ud", "http://x/ud"⟩]

theorem Vocabulary.tagsets_last_pair_wins_of_aliases :
    SpacedOut ["tag".toList, "ud".toList, "2".toList] "tag ud 2".toList ∧
      aliasedType.tagsets ["pos ptb", "tag ud 2", "\ttag\u2003 ud "] =
        aliasedType.tagsets ["pos ptb", "\ttag\u2003 ud "] ∧
      (aliasedType.tagsets ["pos ptb", "\ttag\u2003 ud "]).get? "http://x/pos" =
        some "http://x/ud" ∧
      aliasedType.tagsets ["pos ptb", "\ttag\u2003 ud "] ≠
        aliasedType.tagsets ["\ttag\u2003 ud ", "pos ptb"] := by
  have hthree : SpacedOut ["tag".toList, "ud".toList, "2".toList] "tag ud 2".toList :=
    (Text.words_eq_iff _ _).1 (by decide +kernel)
  have hfirst : aliasedType.Assigns "pos ptb" "http://x/pos" "ptb" :=
    tagsetRow?_eq_some_iff.1 (by decide +kernel)
  have hsecond : aliasedType.Assigns "\ttag\u2003 ud " "http://x/pos" "http://x/ud" :=
    tagsetRow?_eq_some_iff.1 (by decide +kernel)
  obtain ⟨-, hlast, hdrop, -, hswap, -⟩ := aliasedType.tagsets_last_pair_wins
  refine ⟨hthree, hdrop ["pos ptb"] _ _ _ hthree (by decide), (hlast _ _ _).2 ?_,
    (hswap [] [] _ _).2 ?_⟩
  · exact ⟨["pos ptb"], _, [], rfl, hsecond, by simp⟩
  · exact ⟨_, _, _, hfirst, hsecond, by decide, by simp⟩

end ServiceMetadata
