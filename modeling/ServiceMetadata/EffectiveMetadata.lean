import ServiceMetadata.Record

/-! # Effective metadata

A service's own record laid over the common record of its base class. What the service sets wins,
and the common record fills gaps. For encoding, language and format a value for one direction comes
before a value for both, whichever of the two records it stands in. -/
namespace ServiceMetadata

def firstText (chain : List String) : Option String := chain.find? (· ≠ "")

def firstList (chain : List (List String)) : Option (List String) := chain.find? (· ≠ [])

/-- Metadata as it holds for a service; what no record gives is absent. -/
structure EffectiveMetadata where
  schema : Option String
  name : Option String
  description : Option String
  version : Option String
  vendor : Option String
  allow : Option String
  license : Option String
  licenseDesc : Option String
  inputEncoding : Option String
  outputEncoding : Option String
  inputLanguage : Option (List String)
  outputLanguage : Option (List String)
  inputFormat : Option (List String)
  outputFormat : Option (List String)
  requires : Option (List String)
  produces : Option (List String)
  requiresTagsets : Option (List String)
  producesTagsets : Option (List String)
  deriving DecidableEq

namespace EffectiveMetadata

def chain {α : Type} (common : Option ServiceRecord) (own : ServiceRecord)
    (field : ServiceRecord → α) : List α :=
  field own :: (common.map field).toList

def merge (common : Option ServiceRecord) (own : ServiceRecord) : EffectiveMetadata :=
  let text (field : ServiceRecord → String) := firstText (chain common own field)
  let list (field : ServiceRecord → List String) := firstList (chain common own field)
  let directedText (directed shared : ServiceRecord → String) :=
    firstText (chain common own directed ++ chain common own shared)
  let directedList (directed shared : ServiceRecord → List String) :=
    firstList (chain common own directed ++ chain common own shared)
  { schema := text (·.schema)
    name := text (·.name)
    description := text (·.description)
    version := text (·.version)
    vendor := text (·.vendor)
    allow := text (·.allow)
    license := text (·.license)
    licenseDesc := text (·.licenseDesc)
    inputEncoding := directedText (·.requiresEncoding) (·.encoding)
    outputEncoding := directedText (·.producesEncoding) (·.encoding)
    inputLanguage := directedList (·.requiresLanguage) (·.language)
    outputLanguage := directedList (·.producesLanguage) (·.language)
    inputFormat := directedList (·.requiresFormat) (·.format)
    outputFormat := directedList (·.producesFormat) (·.format)
    requires := list (·.requires)
    produces := list (·.produces)
    requiresTagsets := list (·.requiresTagsets)
    producesTagsets := list (·.producesTagsets) }

end EffectiveMetadata
end ServiceMetadata
