import ServiceMetadata.EffectiveMetadata
import ServiceMetadata.Proofs.Json.Members

/-!
# The gaps that the common record fills

A field that a service's object leaves out is blank in its record, and a blank field takes the value
of the common record. Only the usage restriction is not blank when it is left out.
-/
namespace ServiceMetadata.EffectiveMetadata
open ServiceMetadata.Json (Field HasKey Key Node Source)

variable {α : Type} {src : Source} {members : List (Key × Node)} {common own : ServiceRecord}

structure LayeredField (α : Type) where
  key : String
  get : ServiceRecord → α
  effective : EffectiveMetadata → Option α

def allowField : LayeredField String := ⟨"allow", (·.allow), (·.allow)⟩

def blankTexts : List (LayeredField String) :=
  [⟨"schema", (·.schema), (·.schema)⟩, ⟨"name", (·.name), (·.name)⟩,
    ⟨"description", (·.description), (·.description)⟩, ⟨"version", (·.version), (·.version)⟩,
    ⟨"vendor", (·.vendor), (·.vendor)⟩, ⟨"license", (·.license), (·.license)⟩,
    ⟨"license_desc", (·.licenseDesc), (·.licenseDesc)⟩]

def layeredTexts : List (LayeredField String) := allowField :: blankTexts

def layeredLists : List (LayeredField (List String)) :=
  [⟨"requires", (·.requires), (·.requires)⟩, ⟨"produces", (·.produces), (·.produces)⟩,
    ⟨"requires_tagsets", (·.requiresTagsets), (·.requiresTagsets)⟩,
    ⟨"produces_tagsets", (·.producesTagsets), (·.producesTagsets)⟩]

/-- If the service's object leaves the field out and the common record does not, the common value
is the effective one. -/
def LayeredField.FillsGap (f : LayeredField α) (blank : α) (members : List (Key × Node))
    (common own : ServiceRecord) : Prop :=
  ¬ HasKey members f.key → f.get common ≠ blank →
    f.effective (merge (some common) own) = some (f.get common)

theorem firstText_blank {s : String} (h : s ≠ "") : firstText ["", s] = some s := by
  simp [firstText, h]

theorem firstList_blank {l : List String} (h : l ≠ []) : firstList [[], l] = some l := by
  simp [firstList, h]

theorem effective_text {f : LayeredField String} (hf : f ∈ layeredTexts) :
    f.effective (merge (some common) own) = firstText [f.get own, f.get common] := by
  simp only [layeredTexts, blankTexts, List.mem_cons, List.not_mem_nil, or_false] at hf
  rcases hf with rfl | rfl | rfl | rfl | rfl | rfl | rfl | rfl <;> rfl

theorem effective_list {f : LayeredField (List String)} (hf : f ∈ layeredLists) :
    f.effective (merge (some common) own) = firstList [f.get own, f.get common] := by
  simp only [layeredLists, List.mem_cons, List.not_mem_nil, or_false] at hf
  rcases hf with rfl | rfl | rfl | rfl <;> rfl

theorem text_of_absent {f : LayeredField String} (hf : f ∈ layeredTexts)
    (hown : ServiceRecord.shape.read src (.object members) = .ok own)
    (habsent : ¬ HasKey members f.key) : f.get own = f.get {} := by
  refine Json.Shape.read_object_keeps ?_ habsent hown
  simp only [layeredTexts, blankTexts, List.mem_cons, List.not_mem_nil, or_false] at hf
  rcases hf with rfl | rfl | rfl | rfl | rfl | rfl | rfl | rfl <;>
    simp [ServiceRecord.shape, allowField, Field.keeps_text, Field.keeps_texts]

theorem list_of_absent {f : LayeredField (List String)} (hf : f ∈ layeredLists)
    (hown : ServiceRecord.shape.read src (.object members) = .ok own)
    (habsent : ¬ HasKey members f.key) : f.get own = f.get {} := by
  refine Json.Shape.read_object_keeps ?_ habsent hown
  simp only [layeredLists, List.mem_cons, List.not_mem_nil, or_false] at hf
  rcases hf with rfl | rfl | rfl | rfl <;>
    simp [ServiceRecord.shape, Field.keeps_text, Field.keeps_texts]

theorem blank_of_left_out :
    (∀ f ∈ blankTexts, f.get {} = "") ∧ ∀ f ∈ layeredLists, f.get {} = [] := by
  simp [blankTexts, layeredLists]

theorem fillsGap_text {f : LayeredField String} (hf : f ∈ blankTexts)
    (hown : ServiceRecord.shape.read src (.object members) = .ok own) :
    f.FillsGap "" members common own := by
  intro habsent hcommon
  have hlayered : f ∈ layeredTexts := List.mem_cons_of_mem _ hf
  rw [effective_text hlayered, text_of_absent hlayered hown habsent, blank_of_left_out.1 f hf,
    firstText_blank hcommon]

theorem fillsGap_list {f : LayeredField (List String)} (hf : f ∈ layeredLists)
    (hown : ServiceRecord.shape.read src (.object members) = .ok own) :
    f.FillsGap [] members common own := by
  intro habsent hcommon
  rw [effective_list hf, list_of_absent hf hown habsent, blank_of_left_out.2 f hf,
    firstList_blank hcommon]

theorem allow_of_absent (hown : ServiceRecord.shape.read src (.object members) = .ok own)
    (habsent : ¬ HasKey members "allow") :
    (merge (some common) own).allow = some defaultAllow := by
  have hlayered : allowField ∈ layeredTexts := List.mem_cons_self
  have hown : own.allow = defaultAllow := text_of_absent hlayered hown habsent
  have heffective : (merge (some common) own).allow = firstText [own.allow, common.allow] :=
    effective_text hlayered
  rw [heffective, hown]
  rfl

theorem fillsGap_allow_iff (hown : ServiceRecord.shape.read src (.object members) = .ok own) :
    allowField.FillsGap "" members common own ↔
      HasKey members "allow" ∨ common.allow = "" ∨ common.allow = defaultAllow := by
  constructor
  · intro hfills
    by_cases hkey : HasKey members "allow"
    · exact .inl hkey
    by_cases hblank : common.allow = ""
    · exact .inr (.inl hblank)
    have hcommon : (merge (some common) own).allow = some common.allow := hfills hkey hblank
    exact .inr (.inr (Option.some.inj (hcommon.symm.trans (allow_of_absent hown hkey))))
  · rintro (hkey | hblank | hdefault) habsent hcommon
    · exact absurd hkey habsent
    · exact absurd hblank hcommon
    · exact (allow_of_absent hown habsent).trans (congrArg some hdefault.symm)

/-- The common record fills every gap that a service's object leaves, but for the usage restriction,
for which it does so only if it says what holds anyway. -/
theorem gaps_filled_iff (hown : ServiceRecord.shape.read src (.object members) = .ok own)
    (common : ServiceRecord) :
    (∀ f ∈ layeredTexts, f.FillsGap "" members common own ↔
      (f.key = "allow" →
        HasKey members "allow" ∨ common.allow = "" ∨ common.allow = defaultAllow)) ∧
    (∀ f ∈ layeredLists, f.FillsGap [] members common own) ∧
    (¬ HasKey members "allow" → (merge (some common) own).allow = some defaultAllow) := by
  refine ⟨fun f hf => ?_, fun f hf => fillsGap_list hf hown, allow_of_absent hown⟩
  rcases List.mem_cons.1 hf with rfl | hf
  · rw [fillsGap_allow_iff hown]
    exact ⟨fun h _ => h, fun h => h rfl⟩
  · have hkey : f.key ≠ "allow" := by
      simp only [blankTexts, List.mem_cons, List.not_mem_nil, or_false] at hf
      rcases hf with rfl | rfl | rfl | rfl | rfl | rfl | rfl <;> decide
    exact ⟨fun _ h => absurd h hkey, fun _ => fillsGap_text hf hown⟩

theorem gaps_filled_of_allowed :
    let members : List (Key × Node) := [(.string (.ok "allow"), .string (.ok "research"))]
    let own : ServiceRecord := { allow := "research" }
    let common : ServiceRecord := { vendor := "anc", allow := "commercial" }
    ServiceRecord.shape.read .text (.object members) = .ok own ∧
      (∀ f ∈ layeredTexts, f.FillsGap "" members common own) ∧
      (merge (some common) own).vendor = some "anc" := by
  intro members own common
  have hown : ServiceRecord.shape.read .text (.object members) = .ok own := rfl
  have hkey : HasKey members "allow" := ⟨_, List.mem_cons_self⟩
  have hfills : ∀ f ∈ layeredTexts, f.FillsGap "" members common own := fun f hf =>
    ((gaps_filled_iff hown common).1 f hf).2 fun _ => .inl hkey
  exact ⟨hown, hfills, by decide⟩

theorem gap_of_allow_left :
    let own : ServiceRecord := {}
    let common : ServiceRecord := { allow := "research" }
    ServiceRecord.shape.read .text (.object []) = .ok own ∧ ¬ HasKey [] "allow" ∧
      common.allow ≠ "" ∧ (merge (some common) own).allow = some "any" ∧
      ¬ allowField.FillsGap "" [] common own := by
  intro own common
  have habsent : ¬ HasKey [] "allow" := by rintro ⟨n, hmem⟩; simp at hmem
  have hallow : (merge (some common) own).allow = some "any" := by decide
  refine ⟨rfl, habsent, by decide, hallow, fun hfills => ?_⟩
  have hfilled : (merge (some common) own).allow = some "research" :=
    hfills habsent (by decide)
  simp [hallow] at hfilled

end ServiceMetadata.EffectiveMetadata
