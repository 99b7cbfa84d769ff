import ServiceMetadata.Descriptor.Building

/-!
# What keys resolve to

A key resolves to itself or to the URI of an entry. So what no key and no URI is, no resolved key
is, and in a vocabulary of web addresses a resolved key resolves to itself.
-/
namespace ServiceMetadata.Vocabulary

variable {v : Vocabulary} {key : String} {e : VocabularyEntry}

theorem mem_of_getByName (h : v.getByName key = some e) : e ∈ v.entries := by
  obtain ⟨i, -, hi⟩ := Option.bind_eq_some_iff.1 h
  exact List.mem_of_getElem? hi

theorem mem_of_getByUri (h : v.getByUri key = some e) : e ∈ v.entries := by
  obtain ⟨i, -, hi⟩ := Option.bind_eq_some_iff.1 h
  exact List.mem_of_getElem? hi

theorem resolve_of_isUri (v : Vocabulary) (h : isUri key = true) : v.resolve key = key := by
  rw [resolve, if_pos h]

theorem resolve_cases (v : Vocabulary) (key : String) :
    v.resolve key = key ∨ ∃ e ∈ v.entries, v.resolve key = e.uri := by
  by_cases huri : isUri key = true
  · exact .inl (v.resolve_of_isUri huri)
  rw [resolve, if_neg huri]
  split
  · rename_i e hfound
    right
    rcases Option.or_eq_some_iff.1 hfound with hname | ⟨-, hholder⟩
    · exact ⟨e, mem_of_getByName hname, rfl⟩
    · exact ⟨e, mem_of_getByUri hholder, rfl⟩
  · exact .inl rfl

theorem resolve_ne_empty (hv : ∀ e ∈ v.entries, e.uri ≠ "") (hkey : key ≠ "") :
    v.resolve key ≠ "" := by
  rcases v.resolve_cases key with hself | ⟨e, he, huri⟩
  · rwa [hself]
  · rw [huri]
    exact hv e he

theorem resolve?_ne_empty (hv : ∀ e ∈ v.entries, e.uri ≠ "") (key : String) :
    v.resolve? key ≠ some "" := by
  rw [resolve?]
  split
  · simp
  · rename_i hkey
    intro h
    exact resolve_ne_empty hv hkey (Option.some.inj h)

theorem resolveOption_ne_empty (hv : ∀ e ∈ v.entries, e.uri ≠ "") (key : Option String) :
    v.resolveOption key ≠ some "" := by
  cases key with
  | none => simp [resolveOption]
  | some key => exact resolve?_ne_empty hv key

theorem empty_not_mem_resolveAll (hv : ∀ e ∈ v.entries, e.uri ≠ "") (keys : List String) :
    "" ∉ v.resolveAll keys := by
  intro hmem
  obtain ⟨key, hkey, hresolve⟩ := List.mem_map.1 hmem
  have hne : key ≠ "" := by simpa using (List.mem_filter.1 hkey).2
  exact resolve_ne_empty hv hne hresolve

theorem ne_empty_of_isUri (h : isUri key = true) : key ≠ "" := by
  rintro rfl
  simp [isUri, uriStart] at h

section WebAddresses
variable (hv : ∀ e ∈ v.entries, isUri e.uri = true)
include hv

theorem resolve_resolve (key : String) : v.resolve (v.resolve key) = v.resolve key := by
  rcases v.resolve_cases key with hself | ⟨e, he, huri⟩
  · rw [hself, hself]
  · rw [huri]
    exact v.resolve_of_isUri (hv e he)

theorem resolveOption_resolveOption (key : Option String) :
    v.resolveOption (v.resolveOption key) = v.resolveOption key := by
  have hne := resolveOption_ne_empty (fun e he => ne_empty_of_isUri (hv e he)) key
  cases key with
  | none => rfl
  | some key =>
    by_cases hkey : key = ""
    · simp [resolveOption, resolve?, hkey]
    · have hresolved : v.resolveOption (some key) = some (v.resolve key) := if_neg hkey
      rw [hresolved] at hne ⊢
      have hresolve : v.resolve key ≠ "" := fun h => hne (congrArg some h)
      show v.resolve? (v.resolve key) = some (v.resolve key)
      rw [resolve?, if_neg hresolve, resolve_resolve hv]

theorem resolveAll_resolveAll (keys : List String) :
    v.resolveAll (v.resolveAll keys) = v.resolveAll keys := by
  have hne := empty_not_mem_resolveAll (fun e he => ne_empty_of_isUri (hv e he)) keys
  have hfilter : (v.resolveAll keys).filter (· ≠ "") = v.resolveAll keys := by
    rw [List.filter_eq_self]
    intro key hkey
    simpa using fun h : key = "" => hne (h ▸ hkey)
  rw [resolveAll, hfilter, resolveAll, List.map_map]
  exact List.map_congr_left fun key _ => resolve_resolve hv key

end WebAddresses
end ServiceMetadata.Vocabulary
