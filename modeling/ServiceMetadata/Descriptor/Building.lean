import ServiceMetadata.Descriptor.Basic
import ServiceMetadata.EffectiveMetadata
import ServiceMetadata.Text.WhiteSpace
import ServiceMetadata.Version
import ServiceMetadata.Vocabulary.Basic

/-! # Building descriptors

A descriptor is built from records by looking up names in a vocabulary and the version in a project.
A class without a name of its own in the metadata is called by its class name. -/
namespace ServiceMetadata
open ServiceMetadata.Text (SortedTable)

namespace Vocabulary

def resolveOption (v : Vocabulary) (key : Option String) : Option String := key.bind v.resolve?

def resolveList (v : Vocabulary) (keys : Option (List String)) : List String :=
  v.resolveAll (keys.getD [])

def tagsetRow? (v : Vocabulary) (entry : String) : Option (String × String) :=
  match Text.words entry.toList with
  | [kind, tagset] => some (v.resolve (String.ofList kind), v.resolve (String.ofList tagset))
  | _ => none

/-- The table of tagset entries; of several for one annotation type the last stays. -/
def tagsets (v : Vocabulary) (entries : List String) : SortedTable :=
  SortedTable.ofRows (entries.filterMap v.tagsetRow?)

end Vocabulary

def presentText (s : String) : Option String := if s = "" then none else some s

def EffectiveMetadata.input (m : EffectiveMetadata) (v : Vocabulary) : IoSpecification where
  format := v.resolveList m.inputFormat
  language := v.resolveList m.inputLanguage
  encoding := v.resolveOption m.inputEncoding
  annotations := v.resolveList m.requires
  tagsets := v.tagsets (m.requiresTagsets.getD [])

def EffectiveMetadata.output (m : EffectiveMetadata) (v : Vocabulary) : IoSpecification where
  format := v.resolveList m.outputFormat
  language := v.resolveList m.outputLanguage
  encoding := v.resolveOption m.outputEncoding
  annotations := v.resolveList m.produces
  tagsets := v.tagsets (m.producesTagsets.getD [])

def ServiceDescriptor.build (v : Vocabulary) (p : Project) (className : String)
    (common : Option ServiceRecord) (own : ServiceRecord) : ServiceDescriptor :=
  let m := EffectiveMetadata.merge common own
  { schema := m.schema
    name := m.name.getD className
    description := m.description
    version := p.version .service m.version
    vendor := m.vendor
    license := v.resolveOption m.license
    licenseDesc := m.licenseDesc
    allow := v.resolveOption m.allow
    requires := m.input v
    produces := m.output v }

def DataSourceDescriptor.build (v : Vocabulary) (p : Project) (className : String)
    (r : DataSourceRecord) : DataSourceDescriptor where
  schema := presentText r.schema
  name := (presentText r.name).getD className
  description := presentText r.description
  version := p.version .dataSource (some r.version)
  vendor := presentText r.vendor
  license := v.resolve? r.license
  licenseDesc := presentText r.licenseDesc
  allow := v.resolve? r.allow
  encoding := v.resolve? r.encoding
  language := v.resolveAll r.language
  format := v.resolveAll r.format

end ServiceMetadata
