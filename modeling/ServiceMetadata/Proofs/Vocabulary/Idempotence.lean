import ServiceMetadata.Proofs.Vocabulary.Histories
import ServiceMetadata.Proofs.Vocabulary.Resolution

/-!
# When resolving twice is resolving once

Names and URIs are keys alike, so a URI that is itself a name may lead on to another URI. Resolution
is idempotent just if no name that can be looked up has such a URI.
-/
namespace ServiceMetadata.Vocabulary

variable {v w : Vocabulary} {e : VocabularyEntry} {key : String}

theorem Indexed.resolve_name (hv : v.Indexed) (he : e ∈ v.entries) (hplain : isUri e.name = false) :
    v.resolve e.name = e.uri := by
  rw [hv.resolve_eq, if_neg (by simp [hplain]), (hv.getByName_iff e.name e).2 ⟨he, rfl⟩]
  rfl

theorem Indexed.resolve_unnamed (hv : v.Indexed) (h : ∀ e ∈ v.entries, e.name ≠ key) :
    v.resolve key = key := by
  have hnone : v.getByName key = none := by
    rw [Option.eq_none_iff_forall_ne_some]
    intro e hfound
    obtain ⟨he, hname⟩ := (hv.getByName_iff key e).1 hfound
    exact h e he hname
  rw [hv.resolve_eq, hnone]
  exact ite_self key

theorem key_cases (v : Vocabulary) (key : String) :
    isUri key = true ∨ (∀ e ∈ v.entries, e.name ≠ key) ∨
      ∃ e ∈ v.entries, e.name = key ∧ isUri e.name = false := by
  by_cases huri : isUri key = true
  · exact .inl huri
  by_cases hnamed : ∃ e ∈ v.entries, e.name = key
  · obtain ⟨e, he, rfl⟩ := hnamed
    exact .inr (.inr ⟨e, he, rfl, by simpa using huri⟩)
  · exact .inr (.inl fun e he hname => hnamed ⟨e, he, hname⟩)

theorem Indexed.resolve_eq_self_iff (hv : v.Indexed) (key : String) :
    v.resolve key = key ↔
      isUri key = true ∨ (∀ e ∈ v.entries, e.name ≠ key) ∨
        ∃ e ∈ v.entries, e.name = key ∧ e.uri = key := by
  constructor
  · intro h
    rcases key_cases v key with huri | hunnamed | ⟨e, he, rfl, hplain⟩
    · exact .inl huri
    · exact .inr (.inl hunnamed)
    · exact .inr (.inr ⟨e, he, rfl, (hv.resolve_name he hplain).symm.trans h⟩)
  · rintro (huri | hunnamed | ⟨e, he, rfl, huri⟩)
    · exact v.resolve_of_isUri huri
    · exact hv.resolve_unnamed hunnamed
    · cases hplain : isUri e.name with
      | true => exact v.resolve_of_isUri hplain
      | false => rw [hv.resolve_name he hplain, huri]

theorem Indexed.resolve_resolve_iff (hv : v.Indexed) :
    (∀ key, v.resolve (v.resolve key) = v.resolve key) ↔
      ∀ e ∈ v.entries, isUri e.name = false → v.resolve e.uri = e.uri := by
  constructor
  · intro h e he hplain
    have hname := h e.name
    rwa [hv.resolve_name he hplain] at hname
  · intro h key
    rcases key_cases v key with huri | hunnamed | ⟨e, he, rfl, hplain⟩
    · rw [v.resolve_of_isUri huri, v.resolve_of_isUri huri]
    · rw [hv.resolve_unnamed hunnamed, hv.resolve_unnamed hunnamed]
    · rw [hv.resolve_name he hplain, h e he hplain]

theorem mem_of_mem_standard_extend (h : e ∈ (standard.extend w).entries) :
    e ∈ Standard.entries ∨ e ∈ w.entries := by
  have hlast := (History.standard.tabulates.insertAll History.standard.indexed w.entries).last e h
  exact List.mem_append.1 (lastOf_name hlast).1

theorem isUri_standard : ∀ e ∈ Standard.entries, isUri e.uri = true := by
  intro e he
  obtain ⟨row, -, rfl⟩ := List.mem_map.1 he
  show isUri (Standard.site ++ row.2) = true
  simp [isUri, uriStart, Standard.site]

/-- Resolving twice is resolving once just if every name that can be looked up has for its URI a web
address, or no name, or a name that has itself for its URI. So it is over the standard vocabulary with
another laid over it that has web addresses only. -/
theorem Reachable.resolve_idempotent_iff (h : Reachable v) :
    ((∀ key, v.resolve (v.resolve key) = v.resolve key) ↔
      ∀ e ∈ v.entries, isUri e.name = false →
        isUri e.uri = true ∨ (∀ e' ∈ v.entries, e'.name ≠ e.uri) ∨
          ∃ e' ∈ v.entries, e'.name = e.uri ∧ e'.uri = e.uri) ∧
      ∀ w : Vocabulary, (∀ e ∈ w.entries, isUri e.uri = true) →
        ∀ key, (Vocabulary.standard.extend w).resolve ((Vocabulary.standard.extend w).resolve key) =
          (Vocabulary.standard.extend w).resolve key := by
  have hv := h.indexed
  refine ⟨?_, fun w hw => resolve_resolve fun e he => ?_⟩
  · rw [hv.resolve_resolve_iff]
    simp only [hv.resolve_eq_self_iff]
  · rcases mem_of_mem_standard_extend he with hstandard | hlayer
    · exact isUri_standard e hstandard
    · exact hw e hlayer

def chained : Vocabulary := (empty.insert ⟨"a", "b"⟩).insert ⟨"b", "c"⟩

def restingChain : Vocabulary := chained.insert ⟨"b", "b"⟩

theorem resolve_idempotent_of_restingChain :
    Reachable chained ∧ ¬ (∀ key, chained.resolve (chained.resolve key) = chained.resolve key) ∧
      Reachable restingChain ∧
      (∀ key, restingChain.resolve (restingChain.resolve key) = restingChain.resolve key) ∧
      ∀ key, (standard.extend (ofEntries [⟨"any", "https://x"⟩])).resolve
          ((standard.extend (ofEntries [⟨"any", "https://x"⟩])).resolve key) =
        (standard.extend (ofEntries [⟨"any", "https://x"⟩])).resolve key := by
  have hchained : Reachable chained := .insert (.insert .empty _) _
  have hresting : Reachable restingChain := .insert hchained _
  refine ⟨hchained, fun h => ?_, hresting, ?_, ?_⟩
  · have hends := hchained.resolve_idempotent_iff.1.1 h ⟨"a", "b"⟩ (by decide +kernel)
      (by decide +kernel)
    exact absurd hends (by decide +kernel)
  · exact hresting.resolve_idempotent_iff.1.2 (by decide +kernel)
  · exact hchained.resolve_idempotent_iff.2 _ (by decide +kernel)

end ServiceMetadata.Vocabulary
