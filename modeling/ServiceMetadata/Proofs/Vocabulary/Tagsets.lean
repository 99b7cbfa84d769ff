import Mathlib.Data.List.Basic
import ServiceMetadata.Proofs.Text.Words
import ServiceMetadata.Proofs.Vocabulary.Resolution

/-!
# Tables of tagsets

The rows of a table come from entries of two words. If no URI has white space in it, the rows are
such entries again, and the table of these is the same.
-/
namespace ServiceMetadata.Vocabulary
open ServiceMetadata.Text (IsWord SortedTable)

variable {v : Vocabulary} {entry : String} {row : String × String}

theorem tagsetRow?_eq_some (h : v.tagsetRow? entry = some row) :
    ∃ kind tagset, IsWord kind ∧ IsWord tagset ∧ v.resolve (String.ofList kind) = row.1 ∧
      v.resolve (String.ofList tagset) = row.2 := by
  unfold tagsetRow? at h
  split at h
  · rename_i kind tagset hwords
    obtain rfl := Option.some.inj h
    have hword : ∀ w ∈ [kind, tagset], IsWord w := fun w hw =>
      Text.isWord_of_mem_words (hwords ▸ hw)
    exact ⟨kind, tagset, hword kind (by simp), hword tagset (by simp), rfl, rfl⟩
  · simp at h

theorem mem_tagsets {entries : List String} (h : row ∈ (v.tagsets entries).rows) :
    ∃ kind tagset, IsWord kind ∧ IsWord tagset ∧ v.resolve (String.ofList kind) = row.1 ∧
      v.resolve (String.ofList tagset) = row.2 := by
  obtain ⟨entry, -, hentry⟩ := List.mem_filterMap.1 (SortedTable.mem_of_mem_ofRows h)
  exact tagsetRow?_eq_some hentry

theorem ofList_ne_empty {w : List Char} (hw : IsWord w) : String.ofList w ≠ "" := by
  intro h
  exact hw.1 (by simpa using congrArg String.toList h)

theorem tagsets_ne_empty (hv : ∀ e ∈ v.entries, e.uri ≠ "") (entries : List String) :
    ∀ row ∈ (v.tagsets entries).rows, row.1 ≠ "" ∧ row.2 ≠ "" := by
  intro row hrow
  obtain ⟨kind, tagset, hkind, htagset, h₁, h₂⟩ := mem_tagsets hrow
  rw [← h₁, ← h₂]
  exact ⟨resolve_ne_empty hv (ofList_ne_empty hkind), resolve_ne_empty hv (ofList_ne_empty htagset)⟩

def tagsetEntry (row : String × String) : String := row.1 ++ " " ++ row.2

section WebAddresses
variable (hv : ∀ e ∈ v.entries, isUri e.uri = true)
  (hwords : ∀ e ∈ v.entries, ∀ c ∈ e.uri.toList, Text.isWhiteSpace c = false)
include hv hwords

theorem isWord_resolve {w : List Char} (hw : IsWord w) :
    IsWord (v.resolve (String.ofList w)).toList := by
  rcases v.resolve_cases (String.ofList w) with hself | ⟨e, he, huri⟩
  · rwa [hself, String.toList_ofList]
  · rw [huri]
    refine ⟨fun hnil => ne_empty_of_isUri (hv e he) ?_, hwords e he⟩
    simpa using hnil

theorem tagsetRow?_tagsetEntry {entries : List String} (hrow : row ∈ (v.tagsets entries).rows) :
    v.tagsetRow? (tagsetEntry row) = some row := by
  obtain ⟨kind, tagset, hkind, htagset, h₁, h₂⟩ := mem_tagsets hrow
  have hkey : IsWord row.1.toList := h₁ ▸ isWord_resolve hv hwords hkind
  have hvalue : IsWord row.2.toList := h₂ ▸ isWord_resolve hv hwords htagset
  have htext : (tagsetEntry row).toList = row.1.toList ++ ' ' :: row.2.toList := by
    simp [tagsetEntry]
  have hread : Text.words (tagsetEntry row).toList = [row.1.toList, row.2.toList] := by
    rw [htext, Text.words_space_word hkey, Text.words_word hvalue]
  have hsettled : v.resolve row.1 = row.1 ∧ v.resolve row.2 = row.2 := by
    rw [← h₁, ← h₂]
    exact ⟨resolve_resolve hv _, resolve_resolve hv _⟩
  rw [tagsetRow?, hread]
  simp [hsettled]

theorem tagsets_tagsetEntries (entries : List String) :
    v.tagsets ((v.tagsets entries).rows.map tagsetEntry) = v.tagsets entries := by
  have hrows : ((v.tagsets entries).rows.map tagsetEntry).filterMap v.tagsetRow? =
      (v.tagsets entries).rows := by
    rw [List.filterMap_map]
    exact (List.filterMap_congr fun row hrow =>
      tagsetRow?_tagsetEntry hv hwords hrow).trans List.filterMap_some
  rw [tagsets, hrows, SortedTable.ofRows_rows]

end WebAddresses
end ServiceMetadata.Vocabulary
