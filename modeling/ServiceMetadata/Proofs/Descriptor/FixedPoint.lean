import ServiceMetadata.Proofs.Descriptor.Blanks

/-!
# Descriptors are fixed points

A descriptor that is spelled out as a record of its own is built again from that record: what the
vocabulary and the project have settled stays as it is.
-/
namespace ServiceMetadata
open ServiceMetadata.Vocabulary (isUri tagsetEntry)

variable {v : Vocabulary} {p : Project} {className : String}

/-- The record that says all that the descriptor says. -/
def ServiceDescriptor.toRecord (d : ServiceDescriptor) : ServiceRecord where
  schema := d.schema.getD ""
  name := d.name
  description := d.description.getD ""
  version := d.version.getD ""
  vendor := d.vendor.getD ""
  allow := d.allow.getD ""
  license := d.license.getD ""
  licenseDesc := d.licenseDesc.getD ""
  encoding := ""
  requiresEncoding := d.requires.encoding.getD ""
  producesEncoding := d.produces.encoding.getD ""
  language := []
  requiresLanguage := d.requires.language
  producesLanguage := d.produces.language
  format := []
  requiresFormat := d.requires.format
  producesFormat := d.produces.format
  requires := d.requires.annotations
  produces := d.produces.annotations
  requiresTagsets := d.requires.tagsets.rows.map tagsetEntry
  producesTagsets := d.produces.tagsets.rows.map tagsetEntry

structure Vocabulary.Settles (v : Vocabulary) (key : Option String) : Prop where
  present : key ≠ some ""
  resolved : v.resolveOption key = key

structure IoSpecification.Settled (v : Vocabulary) (io : IoSpecification) : Prop where
  format : v.resolveAll io.format = io.format
  language : v.resolveAll io.language = io.language
  encoding : v.Settles io.encoding
  annotations : v.resolveAll io.annotations = io.annotations
  tagsets : v.tagsets (io.tagsets.rows.map tagsetEntry) = io.tagsets

structure ServiceDescriptor.Settled (v : Vocabulary) (p : Project) (className : String)
    (d : ServiceDescriptor) : Prop where
  schema : d.schema ≠ some ""
  name : d.name = "" → className = ""
  description : d.description ≠ some ""
  version : d.version ≠ some "" ∧ p.version .service d.version = d.version
  vendor : d.vendor ≠ some ""
  license : v.Settles d.license
  licenseDesc : d.licenseDesc ≠ some ""
  allow : v.Settles d.allow
  requires : d.requires.Settled v
  produces : d.produces.Settled v

theorem firstText_getD {text : Option String} (h : text ≠ some "") {rest : List String}
    (hrest : ∀ s ∈ rest, s = "") : firstText (text.getD "" :: rest) = text := by
  cases text with
  | none => simpa [firstText] using hrest
  | some s =>
    have hs : s ≠ "" := fun hs => h (congrArg some hs)
    simp [firstText, hs]

theorem getD_firstList (l : List String) {rest : List (List String)} (hrest : ∀ l ∈ rest, l = []) :
    (firstList (l :: rest)).getD [] = l := by
  cases l with
  | nil =>
    have hblank : firstList ([] :: rest) = none := by simpa [firstList] using hrest
    rw [hblank]
    rfl
  | cons s l => simp [firstList]

theorem resolveOption_firstText {key : Option String} (h : v.Settles key) {rest : List String}
    (hrest : ∀ s ∈ rest, s = "") : v.resolveOption (firstText (key.getD "" :: rest)) = key := by
  rw [firstText_getD h.present hrest, h.resolved]

theorem resolveList_firstList {l : List String} (h : v.resolveAll l = l)
    {rest : List (List String)} (hrest : ∀ l ∈ rest, l = []) :
    v.resolveList (firstList (l :: rest)) = l := by
  rw [Vocabulary.resolveList, getD_firstList l hrest, h]

theorem IoSpecification.Settled.rebuilt {io : IoSpecification} (h : io.Settled v) :
    { format := v.resolveList (firstList [io.format, []])
      language := v.resolveList (firstList [io.language, []])
      encoding := v.resolveOption (firstText [io.encoding.getD "", ""])
      annotations := v.resolveList (firstList [io.annotations])
      tagsets := v.tagsets ((firstList [io.tagsets.rows.map tagsetEntry]).getD []) } = io := by
  rw [resolveList_firstList h.format (by simp), resolveList_firstList h.language (by simp),
    resolveOption_firstText h.encoding (by simp), resolveList_firstList h.annotations (by simp),
    getD_firstList _ (by simp), h.tagsets]

theorem ServiceDescriptor.Settled.build_toRecord {d : ServiceDescriptor}
    (h : d.Settled v p className) : build v p className none d.toRecord = d := by
  have hname : (firstText [d.name]).getD className = d.name := by
    by_cases hblank : d.name = ""
    · rw [hblank, h.name hblank]
      rfl
    · simp [firstText, hblank]
  have hversion : p.version .service (firstText [d.version.getD ""]) = d.version := by
    rw [firstText_getD h.version.1 (by simp), h.version.2]
  calc build v p className none d.toRecord
    _ = { schema := firstText [d.schema.getD ""]
          name := (firstText [d.name]).getD className
          description := firstText [d.description.getD ""]
          version := p.version .service (firstText [d.version.getD ""])
          vendor := firstText [d.vendor.getD ""]
          license := v.resolveOption (firstText [d.license.getD ""])
          licenseDesc := firstText [d.licenseDesc.getD ""]
          allow := v.resolveOption (firstText [d.allow.getD ""])
          requires := (EffectiveMetadata.merge none d.toRecord).input v
          produces := (EffectiveMetadata.merge none d.toRecord).output v } := rfl
    _ = d := by
      have hinput : (EffectiveMetadata.merge none d.toRecord).input v = d.requires :=
        h.requires.rebuilt
      have houtput : (EffectiveMetadata.merge none d.toRecord).output v = d.produces :=
        h.produces.rebuilt
      rw [hname, hversion, hinput, houtput, firstText_getD h.schema (by simp),
        firstText_getD h.description (by simp), firstText_getD h.vendor (by simp),
        resolveOption_firstText h.license (by simp), firstText_getD h.licenseDesc (by simp),
        resolveOption_firstText h.allow (by simp)]

section WebAddresses
variable (hv : ∀ e ∈ v.entries, isUri e.uri = true)
include hv

theorem Vocabulary.settles_resolveOption (key : Option String) :
    v.Settles (v.resolveOption key) where
  present := resolveOption_ne_empty (fun e he => ne_empty_of_isUri (hv e he)) key
  resolved := resolveOption_resolveOption hv key

variable (hwords : ∀ e ∈ v.entries, ∀ c ∈ e.uri.toList, Text.isWhiteSpace c = false)
include hwords

theorem IoSpecification.resolved_settled (format language annotations : Option (List String))
    (encoding : Option String) (entries : List String) :
    Settled v {
      format := v.resolveList format
      language := v.resolveList language
      encoding := v.resolveOption encoding
      annotations := v.resolveList annotations
      tagsets := v.tagsets entries } where
  format := Vocabulary.resolveAll_resolveAll hv _
  language := Vocabulary.resolveAll_resolveAll hv _
  encoding := Vocabulary.settles_resolveOption hv encoding
  annotations := Vocabulary.resolveAll_resolveAll hv _
  tagsets := Vocabulary.tagsets_tagsetEntries hv hwords entries

theorem ServiceDescriptor.build_settled (p : Project) (className : String)
    (common : Option ServiceRecord) (own : ServiceRecord) :
    (build v p className common own).Settled v p className where
  schema := firstText_ne_empty _
  name hblank := by
    by_contra hclass
    exact getD_ne_empty (firstText_ne_empty _) hclass hblank
  description := firstText_ne_empty _
  version := ⟨p.version_ne_empty _ _, p.version_version _ _⟩
  vendor := firstText_ne_empty _
  license := Vocabulary.settles_resolveOption hv _
  licenseDesc := firstText_ne_empty _
  allow := Vocabulary.settles_resolveOption hv _
  requires := IoSpecification.resolved_settled hv hwords _ _ _ _ _
  produces := IoSpecification.resolved_settled hv hwords _ _ _ _ _

end WebAddresses

/-- In a vocabulary of web addresses, a service's descriptor is built again from the one record that
spells it out. -/
theorem build_toRecord_build (hv : ∀ e ∈ v.entries, isUri e.uri = true)
    (hwords : ∀ e ∈ v.entries, ∀ c ∈ e.uri.toList, Text.isWhiteSpace c = false)
    (p : Project) (className : String) (common : Option ServiceRecord) (own : ServiceRecord) :
    ServiceDescriptor.build v p className none
        (ServiceDescriptor.build v p className common own).toRecord =
      ServiceDescriptor.build v p className common own :=
  (ServiceDescriptor.build_settled hv hwords p className common own).build_toRecord

def partOfSpeech : Vocabulary :=
  .ofEntries [⟨"pos", "http://x/Token#pos"⟩, ⟨"ud", "http://x/tagset#ud"⟩]

theorem build_toRecord_build_partOfSpeech :
    (∀ e ∈ partOfSpeech.entries, isUri e.uri = true ∧
      ∀ c ∈ e.uri.toList, Text.isWhiteSpace c = false) ∧
      let d := ServiceDescriptor.build partOfSpeech emptyProject "a.A" (some { format := ["text"] })
        { encoding := "UTF-8", requiresTagsets := ["pos  ud"] }
      d.toRecord.requiresTagsets = ["http://x/Token#pos http://x/tagset#ud"] ∧
        ServiceDescriptor.build partOfSpeech emptyProject "a.A" none d.toRecord = d := by
  have hall : partOfSpeech.entries.all (fun e => isUri e.uri &&
      e.uri.toList.all fun c => !Text.isWhiteSpace c) = true := by decide +kernel
  have hv : ∀ e ∈ partOfSpeech.entries, isUri e.uri = true ∧
      ∀ c ∈ e.uri.toList, Text.isWhiteSpace c = false := by
    simpa only [List.all_eq_true, Bool.and_eq_true, Bool.not_eq_true'] using hall
  refine ⟨hv, by decide +kernel, ?_⟩
  exact build_toRecord_build (fun e he => (hv e he).1) (fun e he => (hv e he).2) _ _ _ _

end ServiceMetadata
