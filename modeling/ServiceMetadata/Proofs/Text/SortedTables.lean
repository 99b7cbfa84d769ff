import Mathlib.Data.List.Induction
import Mathlib.Data.List.Sort
import ServiceMetadata.Text.SortedTable

/-!
# The rows of a sorted table

A table that is filled row by row has for every key the value that came last with it, and it is
determined by what is found in it. So two rows next to each other may change places unless they give
one key two values and no later row has the key.
-/
namespace ServiceMetadata.Text.SortedTable

variable {k v : String} {row : String × String} {rows : List (String × String)} {t t' : SortedTable}

theorem mem_insertRow_iff (h : rows.Pairwise fun a b => a.1 < b.1) :
    row ∈ insertRow k v rows ↔ row = (k, v) ∨ row.1 ≠ k ∧ row ∈ rows := by
  induction h with
  | nil => simp [insertRow]
  | @cons first rest hfirst _ ih =>
    have hne {a b : String} (hab : a < b) : b ≠ a := fun h => String.lt_irrefl b (h ▸ hab)
    rw [insertRow]
    split
    · -- all keys of the table come after `k`
      rename_i hk
      have hother : row ∈ first :: rest → row.1 ≠ k := by
        intro hrow
        rcases List.mem_cons.1 hrow with rfl | hrow
        · exact hne hk
        · exact hne (String.lt_trans hk (hfirst row hrow))
      rw [List.mem_cons, and_iff_right_of_imp hother]
    split
    · rename_i hk
      rw [List.mem_cons, ih, List.mem_cons]
      constructor
      · rintro (rfl | rfl | ⟨hrow, hmem⟩)
        · exact .inr ⟨(hne hk).symm, .inl rfl⟩
        · exact .inl rfl
        · exact .inr ⟨hrow, .inr hmem⟩
      · rintro (rfl | ⟨hrow, rfl | hmem⟩)
        · exact .inr (.inl rfl)
        · exact .inl rfl
        · exact .inr (.inr ⟨hrow, hmem⟩)
    · rename_i h₁ h₂
      obtain rfl : k = first.1 := String.le_antisymm (String.not_lt.1 h₂) (String.not_lt.1 h₁)
      rw [List.mem_cons, List.mem_cons]
      constructor
      · rintro (rfl | hmem)
        · exact .inl rfl
        · exact .inr ⟨hne (hfirst row hmem), .inr hmem⟩
      · rintro (rfl | ⟨hrow, rfl | hmem⟩)
        · exact .inl rfl
        · exact absurd rfl hrow
        · exact .inr hmem

theorem ofRows_concat (rows : List (String × String)) (row : String × String) :
    ofRows (rows ++ [row]) = (ofRows rows).insert row.1 row.2 := by
  rw [ofRows, List.foldl_append]
  rfl

/-- The last row with a key is the one that stays. -/
theorem mem_ofRows_iff (rows : List (String × String)) :
    (k, v) ∈ (ofRows rows).rows ↔ rows.reverse.lookup k = some v := by
  induction rows using List.reverseRecOn with
  | nil => simp [ofRows, empty]
  | append_singleton rows row ih =>
    obtain ⟨k', v'⟩ := row
    rw [ofRows_concat, insert, mem_insertRow_iff (ofRows rows).sorted, ih, List.reverse_concat,
      List.lookup_cons]
    by_cases hk : k = k'
    · subst hk
      simp [eq_comm]
    · simp [hk, beq_eq_false_iff_ne.2 hk]

theorem rows_ofRows_perm (h : (rows.map (·.1)).Nodup) : (ofRows rows).rows.Perm rows := by
  have hsorted : (ofRows rows).rows.Nodup :=
    (ofRows rows).sorted.imp fun {a b} (hlt : a.1 < b.1) (heq : a = b) =>
      String.lt_irrefl b.1 (heq ▸ hlt)
  rw [List.perm_ext_iff_of_nodup hsorted (List.Nodup.of_map _ h)]
  intro row
  refine ⟨mem_of_mem_ofRows, fun hrow => ?_⟩
  have hfound : (rows.reverse.lookup row.1).isSome := by
    rw [List.lookup_isSome_iff]
    exact ⟨row, List.mem_reverse.2 hrow, by simp⟩
  obtain ⟨v, hv⟩ := Option.isSome_iff_exists.1 hfound
  have hmem := (mem_ofRows_iff rows).2 hv
  rwa [List.inj_on_of_nodup_map h (mem_of_mem_ofRows hmem) hrow rfl] at hmem

theorem get?_eq_some_iff (t : SortedTable) : t.get? k = some v ↔ (k, v) ∈ t.rows := by
  rw [get?, List.lookup_eq_some_iff]
  constructor
  · rintro ⟨before, after, hrows, -⟩
    simp [hrows]
  · intro hmem
    obtain ⟨before, after, hrows⟩ := List.append_of_mem hmem
    refine ⟨before, after, hrows, fun row hrow => ?_⟩
    have hsorted := t.sorted
    rw [hrows, List.pairwise_append] at hsorted
    have hlt : row.1 < k := hsorted.2.2 row hrow _ List.mem_cons_self
    simpa using fun h : k = row.1 => String.lt_irrefl k (by rwa [← h] at hlt)

theorem get?_ofRows (rows : List (String × String)) (k : String) :
    (ofRows rows).get? k = rows.reverse.lookup k := by
  ext v
  rw [get?_eq_some_iff, mem_ofRows_iff]

def ComesBefore (a b : String × String) : Prop := a.1 < b.1

instance : Std.Irrefl ComesBefore where
  irrefl a := String.lt_irrefl a.1

instance : Std.Antisymm ComesBefore where
  antisymm a _ hab hba := absurd (String.lt_trans hab hba) (String.lt_irrefl a.1)

theorem eq_of_get? (h : ∀ k, t.get? k = t'.get? k) : t = t' := by
  apply eq_of_rows
  refine List.Pairwise.eq_of_mem_iff (r := ComesBefore) t.sorted t'.sorted fun row => ?_
  rw [← get?_eq_some_iff, ← get?_eq_some_iff, h]

theorem lookup_pair (a b : String × String) (k : String) :
    [b, a].lookup k = if k = b.1 then some b.2 else if k = a.1 then some a.2 else none := by
  obtain ⟨keyA, valueA⟩ := a
  obtain ⟨keyB, valueB⟩ := b
  rw [List.lookup_cons, List.lookup_cons, List.lookup_nil]
  by_cases hb : k = keyB
  · simp [hb]
  · by_cases ha : k = keyA
    · subst ha
      simp [hb, beq_eq_false_iff_ne.2 hb]
    · simp [ha, hb, beq_eq_false_iff_ne.2 ha, beq_eq_false_iff_ne.2 hb]

theorem get?_ofRows_pair (rows rows' : List (String × String)) (a b : String × String)
    (k : String) :
    (ofRows (rows ++ a :: b :: rows')).get? k =
      ((ofRows rows').get? k).or (([b, a].lookup k).or ((ofRows rows).get? k)) := by
  have hreverse : (rows ++ a :: b :: rows').reverse = rows'.reverse ++ ([b, a] ++ rows.reverse) := by
    simp
  rw [get?_ofRows, get?_ofRows, get?_ofRows, hreverse, List.lookup_append, List.lookup_append]

theorem get?_ofRows_eq_none_iff : (ofRows rows).get? k = none ↔ k ∉ rows.map (·.1) := by
  rw [get?_ofRows, List.lookup_eq_none_iff, List.mem_map]
  constructor
  · rintro h ⟨row, hrow, rfl⟩
    simpa using h row (List.mem_reverse.2 hrow)
  · intro h row hrow
    simpa using fun hk : k = row.1 => h ⟨row, List.mem_reverse.1 hrow, hk.symm⟩

theorem ofRows_swap_iff (rows rows' : List (String × String)) (a b : String × String) :
    ofRows (rows ++ a :: b :: rows') = ofRows (rows ++ b :: a :: rows') ↔
      (a.1 = b.1 → a.2 = b.2 ∨ a.1 ∈ rows'.map (·.1)) := by
  constructor
  · intro heq hkey
    by_cases hlater : a.1 ∈ rows'.map (·.1)
    · exact .inr hlater
    have hfound := congrArg (·.get? a.1) heq
    simp only [get?_ofRows_pair, get?_ofRows_eq_none_iff.2 hlater, lookup_pair] at hfound
    exact .inl (by simpa [hkey, eq_comm] using hfound)
  · intro h
    apply eq_of_get?
    intro k
    rw [get?_ofRows_pair, get?_ofRows_pair]
    by_cases hlater : k ∈ rows'.map (·.1)
    · obtain ⟨v, hv⟩ := Option.ne_none_iff_exists'.1 (get?_ofRows_eq_none_iff.not_left.2 hlater)
      rw [hv, Option.some_or, Option.some_or]
    · have hpair : [b, a].lookup k = [a, b].lookup k := by
        rw [lookup_pair, lookup_pair]
        grind
      rw [hpair]

end ServiceMetadata.Text.SortedTable
