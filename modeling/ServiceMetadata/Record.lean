import ServiceMetadata.Json.Shape

/-! # Metadata records

What a class says of itself. Texts that are not given are empty, and lists that are not given have
no items; only the usage restriction is `any` unless something else is given. -/
namespace ServiceMetadata
open ServiceMetadata.Json (Field Shape)

def defaultAllow : String := "any"

/-- The metadata of a service, or what a base class says for the services derived from it. -/
structure ServiceRecord where
  schema : String := ""
  name : String := ""
  description : String := ""
  version : String := ""
  vendor : String := ""
  allow : String := defaultAllow
  license : String := ""
  licenseDesc : String := ""
  encoding : String := ""
  requiresEncoding : String := ""
  producesEncoding : String := ""
  language : List String := []
  requiresLanguage : List String := []
  producesLanguage : List String := []
  format : List String := []
  requiresFormat : List String := []
  producesFormat : List String := []
  requires : List String := []
  produces : List String := []
  requiresTagsets : List String := []
  producesTagsets : List String := []
  deriving DecidableEq

structure DataSourceRecord where
  schema : String := ""
  name : String := ""
  description : String := ""
  version : String := ""
  vendor : String := ""
  allow : String := defaultAllow
  license : String := ""
  licenseDesc : String := ""
  encoding : String := ""
  language : List String := []
  format : List String := []
  deriving DecidableEq

def ServiceRecord.shape : Shape ServiceRecord where
  name := "ServiceRecord"
  closed := true
  initial := {}
  fields := [
    .text "schema" (·.schema) fun v r => { r with schema := v },
    .text "name" (·.name) fun v r => { r with name := v },
    .text "description" (·.description) fun v r => { r with description := v },
    .text "version" (·.version) fun v r => { r with version := v },
    .text "vendor" (·.vendor) fun v r => { r with vendor := v },
    .text "allow" (·.allow) fun v r => { r with allow := v },
    .text "license" (·.license) fun v r => { r with license := v },
    .text "license_desc" (·.licenseDesc) fun v r => { r with licenseDesc := v },
    .text "encoding" (·.encoding) fun v r => { r with encoding := v },
    .text "requires_encoding" (·.requiresEncoding) fun v r => { r with requiresEncoding := v },
    .text "produces_encoding" (·.producesEncoding) fun v r => { r with producesEncoding := v },
    .texts "language" (·.language) fun v r => { r with language := v },
    .texts "requires_language" (·.requiresLanguage) fun v r => { r with requiresLanguage := v },
    .texts "produces_language" (·.producesLanguage) fun v r => { r with producesLanguage := v },
    .texts "format" (·.format) fun v r => { r with format := v },
    .texts "requires_format" (·.requiresFormat) fun v r => { r with requiresFormat := v },
    .texts "produces_format" (·.producesFormat) fun v r => { r with producesFormat := v },
    .texts "requires" (·.requires) fun v r => { r with requires := v },
    .texts "produces" (·.produces) fun v r => { r with produces := v },
    .texts "requires_tagsets" (·.requiresTagsets) fun v r => { r with requiresTagsets := v },
    .texts "produces_tagsets" (·.producesTagsets) fun v r => { r with producesTagsets := v }]

def DataSourceRecord.shape : Shape DataSourceRecord where
  name := "DataSourceRecord"
  closed := true
  initial := {}
  fields := [
    .text "schema" (·.schema) fun v r => { r with schema := v },
    .text "name" (·.name) fun v r => { r with name := v },
    .text "description" (·.description) fun v r => { r with description := v },
    .text "version" (·.version) fun v r => { r with version := v },
    .text "vendor" (·.vendor) fun v r => { r with vendor := v },
    .text "allow" (·.allow) fun v r => { r with allow := v },
    .text "license" (·.license) fun v r => { r with license := v },
    .text "license_desc" (·.licenseDesc) fun v r => { r with licenseDesc := v },
    .text "encoding" (·.encoding) fun v r => { r with encoding := v },
    .texts "language" (·.language) fun v r => { r with language := v },
    .texts "format" (·.format) fun v r => { r with format := v }]

end ServiceMetadata
