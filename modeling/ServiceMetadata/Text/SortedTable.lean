/-! # Sorted tables

A table from texts to texts with its rows in the order of their keys, so that equal tables have
equal rows. Texts are ordered by their characters, which is also the order of the bytes that spell
them. -/
namespace ServiceMetadata.Text

structure SortedTable where
  rows : List (String × String)
  sorted : rows.Pairwise fun a b => a.1 < b.1
  deriving DecidableEq

namespace SortedTable

theorem eq_of_rows {t t' : SortedTable} (h : t.rows = t'.rows) : t = t' := by
  cases t
  cases t'
  cases h
  rfl

def empty : SortedTable := ⟨[], List.Pairwise.nil⟩

def insertRow (k v : String) : List (String × String) → List (String × String)
  | [] => [(k, v)]
  | row :: rest =>
    if k < row.1 then (k, v) :: row :: rest
    else if row.1 < k then row :: insertRow k v rest
    else (k, v) :: rest

theorem mem_insertRow {k v : String} {row : String × String} {rows : List (String × String)}
    (h : row ∈ insertRow k v rows) : row = (k, v) ∨ row ∈ rows := by
  induction rows with
  | nil => simpa [insertRow] using h
  | cons first rest ih =>
    simp only [insertRow] at h
    split at h
    · simpa using h
    · split at h
      · rcases List.mem_cons.1 h with h | h
        · simp [h]
        · rcases ih h with h | h <;> simp [h]
      · rcases List.mem_cons.1 h with h | h <;> simp [h]

theorem insertRow_sorted (k v : String) {rows : List (String × String)}
    (h : rows.Pairwise fun a b => a.1 < b.1) :
    (insertRow k v rows).Pairwise fun a b => a.1 < b.1 := by
  induction h with
  | nil => simp [insertRow]
  | @cons first rest hfirst hrest ih =>
    simp only [insertRow]
    split
    · rename_i hk
      refine .cons (fun row hrow => ?_) (.cons hfirst hrest)
      rcases List.mem_cons.1 hrow with rfl | hrow
      · exact hk
      · exact String.lt_trans hk (hfirst row hrow)
    · split
      · rename_i hk
        refine .cons (fun row hrow => ?_) ih
        rcases mem_insertRow hrow with rfl | hrow
        · exact hk
        · exact hfirst row hrow
      · rename_i h₁ h₂
        have hk : k = first.1 := String.le_antisymm (String.not_lt.1 h₂) (String.not_lt.1 h₁)
        refine .cons (fun row hrow => ?_) hrest
        simpa [hk] using hfirst row hrow

def insert (t : SortedTable) (k v : String) : SortedTable :=
  ⟨insertRow k v t.rows, insertRow_sorted k v t.sorted⟩

theorem insertRow_last {k v : String} {rows : List (String × String)}
    (h : ∀ row ∈ rows, row.1 < k) : insertRow k v rows = rows ++ [(k, v)] := by
  induction rows with
  | nil => rfl
  | cons first rest ih =>
    have hfirst : first.1 < k := h first List.mem_cons_self
    have hrest := ih fun row hrow => h row (List.mem_cons_of_mem first hrow)
    have hk : ¬ k < first.1 := fun hk => String.lt_irrefl k (String.lt_trans hk hfirst)
    rw [insertRow, if_neg hk, if_pos hfirst, hrest, List.cons_append]

/-- Of several rows with one key the last stays. -/
def ofRows (rows : List (String × String)) : SortedTable :=
  rows.foldl (fun t row => t.insert row.1 row.2) empty

theorem mem_foldl_insert {t : SortedTable} {row : String × String} {rows : List (String × String)}
    (h : row ∈ (rows.foldl (fun t row => t.insert row.1 row.2) t).rows) :
    row ∈ rows ∨ row ∈ t.rows := by
  induction rows generalizing t with
  | nil => exact .inr h
  | cons first rest ih =>
    rcases ih h with hrest | hinserted
    · exact .inl (List.mem_cons_of_mem first hrest)
    · rcases mem_insertRow hinserted with rfl | ht
      · exact .inl List.mem_cons_self
      · exact .inr ht

theorem mem_of_mem_ofRows {row : String × String} {rows : List (String × String)}
    (h : row ∈ (ofRows rows).rows) : row ∈ rows := by
  rcases mem_foldl_insert h with hrow | hempty
  · exact hrow
  · simp [empty] at hempty

theorem rows_foldl_insert (t : SortedTable) (rows : List (String × String))
    (h : (t.rows ++ rows).Pairwise fun a b => a.1 < b.1) :
    (rows.foldl (fun t row => t.insert row.1 row.2) t).rows = t.rows ++ rows := by
  induction rows generalizing t with
  | nil => rw [List.foldl_nil, List.append_nil]
  | cons row rest ih =>
    have hinsert : (t.insert row.1 row.2).rows = t.rows ++ [row] :=
      insertRow_last fun r hr => (List.pairwise_append.1 h).2.2 r hr row List.mem_cons_self
    rw [List.foldl_cons, ih, hinsert, List.append_assoc, List.singleton_append]
    rwa [hinsert, List.append_assoc, List.singleton_append]

theorem ofRows_rows (t : SortedTable) : ofRows t.rows = t := by
  apply eq_of_rows
  exact rows_foldl_insert empty t.rows t.sorted

def isEmpty (t : SortedTable) : Bool := t.rows.isEmpty

def get? (t : SortedTable) (k : String) : Option String := t.rows.lookup k

end SortedTable
end ServiceMetadata.Text
