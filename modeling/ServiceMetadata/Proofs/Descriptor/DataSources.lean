import ServiceMetadata.Descriptor.Building
import ServiceMetadata.Proofs.VersionSources

/-!
# Data sources as services

A data source that is described as a service, with what it has both taken in and put out, gets the
same descriptor. Only a version that nothing says differs: a data source is said to have an unknown
one, and a service has none.
-/
namespace ServiceMetadata

def DataSourceRecord.asService (r : DataSourceRecord) : ServiceRecord where
  schema := r.schema
  name := r.name
  description := r.description
  version := r.version
  vendor := r.vendor
  allow := r.allow
  license := r.license
  licenseDesc := r.licenseDesc
  encoding := r.encoding
  language := r.language
  format := r.format

namespace DataSourceDescriptor

def io (d : DataSourceDescriptor) : IoSpecification where
  format := d.format
  language := d.language
  encoding := d.encoding
  annotations := []
  tagsets := .empty

def asService (d : DataSourceDescriptor) : ServiceDescriptor where
  schema := d.schema
  name := d.name
  description := d.description
  version := d.version
  vendor := d.vendor
  license := d.license
  licenseDesc := d.licenseDesc
  allow := d.allow
  requires := d.io
  produces := d.io

end DataSourceDescriptor

variable {v : Vocabulary} {p : Project} {className : String}

theorem firstText_singleton (s : String) : firstText [s] = presentText s := by
  by_cases h : s = "" <;> simp [firstText, presentText, h]

theorem firstText_empty_cons (chain : List String) : firstText ("" :: chain) = firstText chain := by
  simp [firstText]

theorem resolveOption_presentText (v : Vocabulary) (s : String) :
    v.resolveOption (presentText s) = v.resolve? s := by
  by_cases h : s = "" <;> simp [presentText, Vocabulary.resolveOption, Vocabulary.resolve?, h]

theorem resolveList_shared (v : Vocabulary) (l : List String) :
    v.resolveList (firstList [[], l]) = v.resolveAll l := by
  cases l <;> simp [Vocabulary.resolveList, firstList]

theorem shared_specification (v : Vocabulary) (format language : List String)
    (encoding : String) :
    ({ format := v.resolveList (firstList [[], format])
       language := v.resolveList (firstList [[], language])
       encoding := v.resolveOption (firstText ["", encoding])
       annotations := v.resolveList (firstList [[]])
       tagsets := v.tagsets ((firstList [[]]).getD []) } : IoSpecification) =
      { format := v.resolveAll format
        language := v.resolveAll language
        encoding := v.resolve? encoding
        annotations := []
        tagsets := .empty } := by
  rw [resolveList_shared, resolveList_shared, firstText_empty_cons, firstText_singleton,
    resolveOption_presentText]
  rfl

theorem version_presentText (p : Project) (kind : DescriptorKind) (s : String) :
    p.version kind (presentText s) = p.version kind (some s) := by
  by_cases h : s = ""
  · subst h
    exact (p.version_of_filter_eq_none kind (by simp)).symm
  · rw [presentText, if_neg h]

theorem build_asService_eq (r : DataSourceRecord) :
    ServiceDescriptor.build v p className none r.asService =
      { (DataSourceDescriptor.build v p className r).asService with
        version := p.version .service (some r.version) } := by
  have hinput : (EffectiveMetadata.merge none r.asService).input v =
      (DataSourceDescriptor.build v p className r).io :=
    shared_specification v r.format r.language r.encoding
  have houtput : (EffectiveMetadata.merge none r.asService).output v =
      (DataSourceDescriptor.build v p className r).io :=
    shared_specification v r.format r.language r.encoding
  calc ServiceDescriptor.build v p className none r.asService
    _ = { schema := firstText [r.schema]
          name := (firstText [r.name]).getD className
          description := firstText [r.description]
          version := p.version .service (firstText [r.version])
          vendor := firstText [r.vendor]
          license := v.resolveOption (firstText [r.license])
          licenseDesc := firstText [r.licenseDesc]
          allow := v.resolveOption (firstText [r.allow])
          requires := (EffectiveMetadata.merge none r.asService).input v
          produces := (EffectiveMetadata.merge none r.asService).output v } := rfl
    _ = _ := by
      simp only [firstText_singleton, resolveOption_presentText, version_presentText, hinput,
        houtput]
      rfl

/-- A data source that is described as a service gets the same descriptor, except for the version if
neither the record nor the project says anything of one. -/
theorem build_asService (v : Vocabulary) (p : Project) (className : String)
    (r : DataSourceRecord) :
    let service := ServiceDescriptor.build v p className none r.asService
    let dataSource := DataSourceDescriptor.build v p className r
    service = { dataSource.asService with version := service.version } ∧
      (service.version ≠ dataSource.version ↔
        r.version = "" ∧ (∀ line, ¬ p.LineGiven line) ∧ ¬ p.PomThere) ∧
      (service.version ≠ dataSource.version ↔
        service.version = none ∧ dataSource.version = some "0.0.0.UNKNOWN") := by
  intro service dataSource
  have hservice : service = { dataSource.asService with
      version := p.version .service (some r.version) } := build_asService_eq r
  have hversion : service.version = p.version .service (some r.version) := by rw [hservice]
  have hblank : NoneGiven (some r.version) ↔ r.version = "" := by simp [NoneGiven]
  refine ⟨?_, ?_, ?_⟩
  · rw [hversion, hservice]
  · rw [hversion, ← hblank]
    exact Project.kinds_differ_iff
  · rw [hversion]
    exact Project.kinds_differ_iff_unknown

end ServiceMetadata
