import ServiceMetadata.Proofs.EffectiveMetadata.Gaps

/-!
# Which value is the effective one

Every effective value is the first of its chain that is not blank. A chain goes tier by tier, and in
each tier from the service's own record to the common one. Encoding, language and format have two
tiers, the value for the direction before the shared one; the other fields have one. A common record
that is missing counts as one in which all is blank.
-/
namespace ServiceMetadata.EffectiveMetadata

variable {α : Type} {blank : α} {candidates : List α} {value : Option α}

/-- The value of a chain that counts: the first that is not blank, and none if all are blank. -/
inductive FirstPresent (blank : α) : List α → Option α → Prop
  | absent {candidates : List α} (h : ∀ a ∈ candidates, a = blank) :
    FirstPresent blank candidates none
  | present {before : List α} {a : α} (after : List α) (hbefore : ∀ b ∈ before, b = blank)
    (ha : a ≠ blank) : FirstPresent blank (before ++ a :: after) (some a)

theorem firstPresent_find? [DecidableEq α] (blank : α) (candidates : List α) :
    FirstPresent blank candidates (candidates.find? (· ≠ blank)) := by
  cases h : candidates.find? (· ≠ blank) with
  | none => exact .absent (by simpa using h)
  | some a =>
    obtain ⟨ha, before, after, rfl, hbefore⟩ := List.find?_eq_some_iff_append.1 h
    exact .present after (by simpa using hbefore) (by simpa using ha)

theorem FirstPresent.eq_none_iff (h : FirstPresent blank candidates value) :
    value = none ↔ ∀ a ∈ candidates, a = blank := by
  cases h with
  | absent hall => exact iff_of_true rfl hall
  | present after _ ha => exact iff_of_false (by simp) fun hall => ha (hall _ (by simp))

theorem FirstPresent.ne_blank (h : FirstPresent blank candidates value) : value ≠ some blank := by
  cases h with
  | absent => simp
  | present after _ ha => simpa using ha

structure TieredField (α : Type) where
  effective : EffectiveMetadata → Option α
  tiers : List (ServiceRecord → α)

def LayeredField.tiered (f : LayeredField α) : TieredField α := ⟨f.effective, [f.get]⟩

def tieredTexts : List (TieredField String) :=
  [⟨(·.inputEncoding), [(·.requiresEncoding), (·.encoding)]⟩,
    ⟨(·.outputEncoding), [(·.producesEncoding), (·.encoding)]⟩] ++
    layeredTexts.map LayeredField.tiered

def tieredLists : List (TieredField (List String)) :=
  [⟨(·.inputLanguage), [(·.requiresLanguage), (·.language)]⟩,
    ⟨(·.outputLanguage), [(·.producesLanguage), (·.language)]⟩,
    ⟨(·.inputFormat), [(·.requiresFormat), (·.format)]⟩,
    ⟨(·.outputFormat), [(·.producesFormat), (·.format)]⟩] ++
    layeredLists.map LayeredField.tiered

theorem eq_of_effective {m m' : EffectiveMetadata}
    (htexts : ∀ f ∈ tieredTexts, f.effective m = f.effective m')
    (hlists : ∀ f ∈ tieredLists, f.effective m = f.effective m') : m = m' := by
  obtain ⟨⟩ := m
  obtain ⟨⟩ := m'
  simp_all [tieredTexts, tieredLists, layeredTexts, allowField, blankTexts, layeredLists,
    LayeredField.tiered]

def blankRecord : ServiceRecord := { allow := "" }

def TieredField.values (f : TieredField α) (common : Option ServiceRecord) (own : ServiceRecord) :
    List α :=
  f.tiers.flatMap fun field => [field own, field (common.getD blankRecord)]

structure TieredField.Wired [DecidableEq α] (f : TieredField α) (blank : α) : Prop where
  untold : ∀ field ∈ f.tiers, field blankRecord = blank
  effective : ∀ common own, f.effective (merge common own) =
    (f.tiers.flatMap (chain common own)).find? (· ≠ blank)

theorem wired_texts : ∀ f ∈ tieredTexts, f.Wired "" := by
  simp only [tieredTexts, layeredTexts, allowField, blankTexts, LayeredField.tiered,
    List.map_cons, List.map_nil, List.cons_append, List.nil_append, List.forall_mem_cons]
  refine ⟨?_, ?_, ?_, ?_, ?_, ?_, ?_, ?_, ?_, ?_, by simp⟩ <;>
    exact ⟨by simp [blankRecord], fun common _ => by cases common <;> rfl⟩

theorem wired_lists : ∀ f ∈ tieredLists, f.Wired [] := by
  simp only [tieredLists, layeredLists, LayeredField.tiered, List.map_cons, List.map_nil,
    List.cons_append, List.nil_append, List.forall_mem_cons]
  refine ⟨?_, ?_, ?_, ?_, ?_, ?_, ?_, ?_, by simp⟩ <;>
    exact ⟨by simp [blankRecord], fun common _ => by cases common <;> rfl⟩

theorem TieredField.Wired.effective_eq [DecidableEq α] {f : TieredField α} (h : f.Wired blank)
    (common : Option ServiceRecord) (own : ServiceRecord) :
    f.effective (merge common own) = (f.values common own).find? (· ≠ blank) := by
  rw [h.effective, TieredField.values]
  cases common with
  | some common => rfl
  | none =>
    -- what the blank record adds to a tier is passed over
    have hblank := h.untold
    generalize f.tiers = tiers at hblank ⊢
    induction tiers with
    | nil => rfl
    | cons field tiers ih =>
      have hskip : [field own, field blankRecord].find? (· ≠ blank) =
          [field own].find? (· ≠ blank) := by
        simp [hblank field List.mem_cons_self, List.find?_cons]
      have hrest := ih fun field hfield => hblank field (List.mem_cons_of_mem _ hfield)
      rw [List.flatMap_cons, List.flatMap_cons, List.find?_append, List.find?_append, hrest]
      exact congrArg (Option.or · _) hskip.symm

/-- The effective value is the first of its chain that is not blank. It is absent just if the whole
chain is blank, it is never blank itself, and it depends on nothing but its chain. -/
structure TieredField.TakesFirst (f : TieredField α) (blank : α) (common : Option ServiceRecord)
    (own : ServiceRecord) : Prop where
  first : FirstPresent blank (f.values common own) (f.effective (merge common own))
  absent_iff : f.effective (merge common own) = none ↔ ∀ a ∈ f.values common own, a = blank
  ne_blank : f.effective (merge common own) ≠ some blank
  only : ∀ common' own', f.values common' own' = f.values common own →
    f.effective (merge common' own') = f.effective (merge common own)

theorem TieredField.Wired.takesFirst [DecidableEq α] {f : TieredField α} (h : f.Wired blank)
    (common : Option ServiceRecord) (own : ServiceRecord) : f.TakesFirst blank common own := by
  have hfirst : FirstPresent blank (f.values common own) (f.effective (merge common own)) := by
    rw [h.effective_eq]
    exact firstPresent_find? blank _
  refine ⟨hfirst, hfirst.eq_none_iff, hfirst.ne_blank, fun common' own' hchain => ?_⟩
  rw [h.effective_eq, h.effective_eq, hchain]

/-- What a service's own record says counts before what the common record says, tier by tier, and a
missing common record is as good as a blank one. -/
theorem merge_takes_first (common : Option ServiceRecord) (own : ServiceRecord) :
    (∀ f ∈ tieredTexts, f.TakesFirst "" common own) ∧
      (∀ f ∈ tieredLists, f.TakesFirst [] common own) ∧
      merge none own = merge (some blankRecord) own := by
  have htexts : ∀ f ∈ tieredTexts, ∀ common, f.TakesFirst "" common own := fun f hf common =>
    (wired_texts f hf).takesFirst common own
  have hlists : ∀ f ∈ tieredLists, ∀ common, f.TakesFirst [] common own := fun f hf common =>
    (wired_lists f hf).takesFirst common own
  refine ⟨fun f hf => htexts f hf common, fun f hf => hlists f hf common, eq_of_effective ?_ ?_⟩
  · exact fun f hf => (htexts f hf (some blankRecord)).only none own rfl
  · exact fun f hf => (hlists f hf (some blankRecord)).only none own rfl

theorem merge_takes_first_of_directed :
    let common : ServiceRecord := { producesFormat := ["lif"], encoding := "UTF-8" }
    let own : ServiceRecord := { format := ["text"], allow := "" }
    let m := merge (some common) own
    m.inputFormat = some ["text"] ∧ m.outputFormat = some ["lif"] ∧
      m.inputEncoding = some "UTF-8" ∧ m.allow = some "any" ∧ m.vendor = none ∧
      FirstPresent [] [[], ["lif"], ["text"], []] m.outputFormat := by
  intro common own m
  have hlists := (merge_takes_first (some common) own).2.1
  have hfirst := (hlists ⟨(·.outputFormat), [(·.producesFormat), (·.format)]⟩
    (by simp [tieredLists])).first
  exact ⟨by decide, by decide, by decide, by decide, by decide, hfirst⟩

end ServiceMetadata.EffectiveMetadata
