import ServiceMetadata.Proofs.Descriptor.RoundTrip
import ServiceMetadata.Proofs.Json.Values
import ServiceMetadata.Proofs.Versions
import ServiceMetadata.Proofs.Vocabulary.Tagsets
import ServiceMetadata.Vocabulary.Standard

/-!
# Descriptors without blanks

What a descriptor does not say is absent, never an empty text or list, and so is nothing in its
printed text null or empty.
-/
namespace ServiceMetadata
open ServiceMetadata.Json (Field ReadsAs)

structure IoSpecification.NoBlank (io : IoSpecification) : Prop where
  format : "" ∉ io.format
  language : "" ∉ io.language
  encoding : io.encoding ≠ some ""
  annotations : "" ∉ io.annotations
  tagsets : ∀ row ∈ io.tagsets.rows, row.1 ≠ "" ∧ row.2 ≠ ""

structure ServiceDescriptor.NoBlank (d : ServiceDescriptor) : Prop where
  schema : d.schema ≠ some ""
  name : d.name ≠ ""
  description : d.description ≠ some ""
  version : d.version ≠ some ""
  vendor : d.vendor ≠ some ""
  license : d.license ≠ some ""
  licenseDesc : d.licenseDesc ≠ some ""
  allow : d.allow ≠ some ""
  requires : d.requires.NoBlank
  produces : d.produces.NoBlank

structure DataSourceDescriptor.NoBlank (d : DataSourceDescriptor) : Prop where
  schema : d.schema ≠ some ""
  name : d.name ≠ ""
  description : d.description ≠ some ""
  version : d.version ≠ some ""
  vendor : d.vendor ≠ some ""
  license : d.license ≠ some ""
  licenseDesc : d.licenseDesc ≠ some ""
  allow : d.allow ≠ some ""
  encoding : d.encoding ≠ some ""
  language : "" ∉ d.language
  format : "" ∉ d.format

variable {v : Vocabulary} {className : String}

theorem firstText_ne_empty (chain : List String) : firstText chain ≠ some "" := by
  intro h
  simpa using List.find?_some h

theorem presentText_ne_empty (s : String) : presentText s ≠ some "" := by
  unfold presentText
  split
  · simp
  · simpa

theorem getD_ne_empty {name : Option String} (hname : name ≠ some "") (hclass : className ≠ "") :
    name.getD className ≠ "" := by
  cases name with
  | none => exact hclass
  | some name => exact fun h => hname (congrArg some h)

theorem IoSpecification.exists_written {io : IoSpecification} (h : io.isEmpty = false) :
    ∃ f ∈ shape.fields, (f.write io).isSome = true := by
  by_contra hnone
  have hwrite : ∀ f ∈ shape.fields, f.write io = none := by
    intro f hf
    rw [Option.eq_none_iff_forall_ne_some]
    exact fun v hv => hnone ⟨f, hf, by rw [hv]; rfl⟩
  have hempty : io.isEmpty = true := by
    simpa [shape, Field.someTexts, Field.optionalText, Field.someTable, isEmpty, and_assoc]
      using hwrite
  rw [hempty] at h
  simp at h

theorem IoSpecification.NoBlank.write {io : IoSpecification} (h : io.NoBlank) {depth : Nat}
    (hdepth : depth + 1 < Json.greatestDepth) (hsome : io.isEmpty = false) :
    (shape.write io).NoBlank ∧ (shape.write io).Readable depth := by
  refine Json.Shape.write_noBlank (by omega) (by decide) ?_ (exists_written hsome)
  simp only [shape, List.forall_mem_cons]
  exact ⟨Field.writesNoBlank_someTexts hdepth h.format,
    Field.writesNoBlank_someTexts hdepth h.language,
    Field.writesNoBlank_optionalText h.encoding,
    Field.writesNoBlank_someTexts hdepth h.annotations,
    Field.writesNoBlank_someTable hdepth h.tagsets, by simp⟩

theorem ServiceDescriptor.NoBlank.write {d : ServiceDescriptor} (h : d.NoBlank) :
    (shape.write d).NoBlank ∧ (shape.write d).Readable 0 := by
  refine Json.Shape.write_noBlank (by decide) (by decide) ?_ ?_
  · simp only [shape, List.forall_mem_cons]
    exact ⟨Field.writesNoBlank_optionalText h.schema,
      Field.writesNoBlank_text h.name,
      Field.writesNoBlank_optionalText h.description,
      Field.writesNoBlank_optionalText h.version,
      Field.writesNoBlank_optionalText h.vendor,
      Field.writesNoBlank_optionalText h.license,
      Field.writesNoBlank_optionalText h.licenseDesc,
      Field.writesNoBlank_optionalText h.allow,
      Field.writesNoBlank_someRecord (h.requires.write (by decide)),
      Field.writesNoBlank_someRecord (h.produces.write (by decide)), by simp⟩
  · exact ⟨_, List.mem_cons_of_mem _ List.mem_cons_self, rfl⟩

theorem DataSourceDescriptor.NoBlank.write {d : DataSourceDescriptor} (h : d.NoBlank) :
    (shape.write d).NoBlank ∧ (shape.write d).Readable 0 := by
  refine Json.Shape.write_noBlank (by decide) (by decide) ?_ ?_
  · simp only [shape, List.forall_mem_cons]
    exact ⟨Field.writesNoBlank_optionalText h.schema,
      Field.writesNoBlank_text h.name,
      Field.writesNoBlank_optionalText h.description,
      Field.writesNoBlank_optionalText h.version,
      Field.writesNoBlank_optionalText h.vendor,
      Field.writesNoBlank_optionalText h.license,
      Field.writesNoBlank_optionalText h.licenseDesc,
      Field.writesNoBlank_optionalText h.allow,
      Field.writesNoBlank_optionalText h.encoding,
      Field.writesNoBlank_someTexts (by decide) h.language,
      Field.writesNoBlank_someTexts (by decide) h.format, by simp⟩
  · exact ⟨_, List.mem_cons_of_mem _ List.mem_cons_self, rfl⟩

section Building
variable (hv : ∀ e ∈ v.entries, e.uri ≠ "")
include hv

theorem IoSpecification.resolved_noBlank (format language annotations : Option (List String))
    (encoding : Option String) (entries : List String) :
    NoBlank {
      format := v.resolveList format
      language := v.resolveList language
      encoding := v.resolveOption encoding
      annotations := v.resolveList annotations
      tagsets := v.tagsets entries } where
  format := Vocabulary.empty_not_mem_resolveAll hv _
  language := Vocabulary.empty_not_mem_resolveAll hv _
  encoding := Vocabulary.resolveOption_ne_empty hv encoding
  annotations := Vocabulary.empty_not_mem_resolveAll hv _
  tagsets := Vocabulary.tagsets_ne_empty hv entries

theorem ServiceDescriptor.build_noBlank (p : Project) (hclass : className ≠ "")
    (common : Option ServiceRecord) (own : ServiceRecord) :
    (ServiceDescriptor.build v p className common own).NoBlank where
  schema := firstText_ne_empty _
  name := getD_ne_empty (firstText_ne_empty _) hclass
  description := firstText_ne_empty _
  version := p.version_ne_empty _ _
  vendor := firstText_ne_empty _
  license := Vocabulary.resolveOption_ne_empty hv _
  licenseDesc := firstText_ne_empty _
  allow := Vocabulary.resolveOption_ne_empty hv _
  requires := IoSpecification.resolved_noBlank hv _ _ _ _ _
  produces := IoSpecification.resolved_noBlank hv _ _ _ _ _

theorem DataSourceDescriptor.build_noBlank (p : Project) (hclass : className ≠ "")
    (r : DataSourceRecord) : (DataSourceDescriptor.build v p className r).NoBlank where
  schema := presentText_ne_empty _
  name := getD_ne_empty (presentText_ne_empty _) hclass
  description := presentText_ne_empty _
  version := p.version_ne_empty _ _
  vendor := presentText_ne_empty _
  license := Vocabulary.resolve?_ne_empty hv _
  licenseDesc := presentText_ne_empty _
  allow := Vocabulary.resolve?_ne_empty hv _
  encoding := Vocabulary.resolve?_ne_empty hv _
  language := Vocabulary.empty_not_mem_resolveAll hv _
  format := Vocabulary.empty_not_mem_resolveAll hv _

end Building

/-- In a vocabulary without empty URIs, the descriptors of a class with a name have no blank, and
neither have their texts, whatever the records and the project say. -/
theorem descriptors_noBlank (hv : ∀ e ∈ v.entries, e.uri ≠ "") (hclass : className ≠ "")
    (p : Project) :
    (∀ common own, (ServiceDescriptor.build v p className common own).NoBlank ∧
      ∃ value, ReadsAs (ServiceDescriptor.shape.print
        (ServiceDescriptor.build v p className common own)) value ∧ value.NoBlank) ∧
    ∀ r, (DataSourceDescriptor.build v p className r).NoBlank ∧
      ∃ value, ReadsAs (DataSourceDescriptor.shape.print
        (DataSourceDescriptor.build v p className r)) value ∧ value.NoBlank := by
  refine ⟨fun common own => ?_, fun r => ?_⟩
  · have hbuild := ServiceDescriptor.build_noBlank hv p hclass common own
    obtain ⟨hblank, hread⟩ := hbuild.write
    exact ⟨hbuild, _, ServiceDescriptor.shape_faithful.print_readsAs hread, hblank⟩
  · have hbuild := DataSourceDescriptor.build_noBlank hv p hclass r
    obtain ⟨hblank, hread⟩ := hbuild.write
    exact ⟨hbuild, _, DataSourceDescriptor.shape_faithful.print_readsAs hread, hblank⟩

def emptyProject : Project := { tree := { current := [], entries := [] }, directory := "." }

theorem descriptors_noBlank_standard :
    (∀ e ∈ Vocabulary.standard.entries, e.uri ≠ "") ∧
      let d := ServiceDescriptor.build .standard emptyProject "a.A" none
        { vendor := "", format := ["", "text"], requiresTagsets := ["token", ""] }
      d.requires = { format := ["http://vocab.lappsgrid.org/ns/media/text"] } ∧
        ∃ value, ReadsAs (ServiceDescriptor.shape.print d) value ∧ value.NoBlank := by
  have hv : ∀ e ∈ Vocabulary.standard.entries, e.uri ≠ "" := by decide +kernel
  refine ⟨hv, by decide +kernel, ?_⟩
  exact ((descriptors_noBlank hv (by decide) emptyProject).1 none _).2

end ServiceMetadata
