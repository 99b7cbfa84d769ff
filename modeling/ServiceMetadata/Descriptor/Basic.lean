import ServiceMetadata.Json.Shape

/-! # Descriptors

What is published of a service or data source. In JSON, what is absent or empty is left out. -/
namespace ServiceMetadata
open ServiceMetadata.Json (Field Shape)
open ServiceMetadata.Text (SortedTable)

structure IoSpecification where
  format : List String := []
  language : List String := []
  encoding : Option String := none
  annotations : List String := []
  tagsets : SortedTable := SortedTable.empty
  deriving DecidableEq

structure ServiceDescriptor where
  schema : Option String := none
  name : String := ""
  description : Option String := none
  version : Option String := none
  vendor : Option String := none
  license : Option String := none
  licenseDesc : Option String := none
  allow : Option String := none
  requires : IoSpecification := {}
  produces : IoSpecification := {}
  deriving DecidableEq

structure DataSourceDescriptor where
  schema : Option String := none
  name : String := ""
  description : Option String := none
  version : Option String := none
  vendor : Option String := none
  license : Option String := none
  licenseDesc : Option String := none
  allow : Option String := none
  encoding : Option String := none
  language : List String := []
  format : List String := []
  deriving DecidableEq

namespace IoSpecification

def isEmpty (io : IoSpecification) : Bool :=
  io.format.isEmpty && io.language.isEmpty && io.encoding.isNone && io.annotations.isEmpty &&
    io.tagsets.isEmpty

def shape : Shape IoSpecification where
  name := "IoSpecification"
  closed := false
  initial := {}
  fields := [
    .someTexts "format" (·.format) fun v r => { r with format := v },
    .someTexts "language" (·.language) fun v r => { r with language := v },
    .optionalText "encoding" (·.encoding) fun v r => { r with encoding := v },
    .someTexts "annotations" (·.annotations) fun v r => { r with annotations := v },
    .someTable "tagsets" (·.tagsets) fun v r => { r with tagsets := v }]

end IoSpecification

def ServiceDescriptor.shape : Shape ServiceDescriptor where
  name := "ServiceDescriptor"
  closed := false
  initial := {}
  fields := [
    .optionalText "$schema" (·.schema) fun v r => { r with schema := v },
    .text "name" (·.name) fun v r => { r with name := v },
    .optionalText "description" (·.description) fun v r => { r with description := v },
    .optionalText "version" (·.version) fun v r => { r with version := v },
    .optionalText "vendor" (·.vendor) fun v r => { r with vendor := v },
    .optionalText "license" (·.license) fun v r => { r with license := v },
    .optionalText "licenseDesc" (·.licenseDesc) fun v r => { r with licenseDesc := v },
    .optionalText "allow" (·.allow) fun v r => { r with allow := v },
    .someRecord "requires" IoSpecification.shape IoSpecification.isEmpty (·.requires)
      fun v r => { r with requires := v },
    .someRecord "produces" IoSpecification.shape IoSpecification.isEmpty (·.produces)
      fun v r => { r with produces := v }]

def DataSourceDescriptor.shape : Shape DataSourceDescriptor where
  name := "DataSourceDescriptor"
  closed := false
  initial := {}
  fields := [
    .optionalText "$schema" (·.schema) fun v r => { r with schema := v },
    .text "name" (·.name) fun v r => { r with name := v },
    .optionalText "description" (·.description) fun v r => { r with description := v },
    .optionalText "version" (·.version) fun v r => { r with version := v },
    .optionalText "vendor" (·.vendor) fun v r => { r with vendor := v },
    .optionalText "license" (·.license) fun v r => { r with license := v },
    .optionalText "licenseDesc" (·.licenseDesc) fun v r => { r with licenseDesc := v },
    .optionalText "allow" (·.allow) fun v r => { r with allow := v },
    .optionalText "encoding" (·.encoding) fun v r => { r with encoding := v },
    .someTexts "language" (·.language) fun v r => { r with language := v },
    .someTexts "format" (·.format) fun v r => { r with format := v }]

end ServiceMetadata
