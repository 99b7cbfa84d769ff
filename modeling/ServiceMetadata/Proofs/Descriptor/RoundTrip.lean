import ServiceMetadata.Descriptor.Basic
import ServiceMetadata.Proofs.Json.Records

/-!
# Published descriptors lose nothing

What is left out of a descriptor's text is what a reader puts there unasked, so the text says all
that the descriptor says.
-/
namespace ServiceMetadata
open ServiceMetadata.Json (Shape Field RestoresAll)
open ServiceMetadata.Text (SortedTable)

namespace IoSpecification

theorem eq_of_isEmpty (io : IoSpecification) (h : io.isEmpty = true) : io = {} := by
  obtain ⟨format, language, encoding, annotations, tagsets⟩ := io
  simp only [isEmpty, Bool.and_eq_true, List.isEmpty_iff, Option.isNone_iff_eq_none] at h
  obtain ⟨⟨⟨⟨hformat, hlanguage⟩, hencoding⟩, hannotations⟩, htagsets⟩ := h
  have hrows : tagsets = SortedTable.empty :=
    SortedTable.eq_of_rows (List.isEmpty_iff.1 htagsets)
  rw [hformat, hlanguage, hencoding, hannotations, hrows]

theorem shape_faithful : shape.Faithful where
  distinct := by decide
  required := by simp [shape, Field.someTexts, Field.optionalText, Field.someTable]
  restores _ r :=
    .cons (Field.restores_someTexts rfl) <|
    .cons (Field.restores_someTexts rfl) <|
    .cons (Field.restores_optionalText rfl) <|
    .cons (Field.restores_someTexts rfl) <|
    .cons (Field.restores_someTable rfl) <|
    .nil r

end IoSpecification

theorem ServiceDescriptor.shape_faithful : ServiceDescriptor.shape.Faithful where
  distinct := by decide
  required := by simp [shape, Field.optionalText, Field.text, Field.someRecord]
  restores _ r :=
    .cons (Field.restores_optionalText rfl) <|
    .cons Field.restores_text <|
    .cons (Field.restores_optionalText rfl) <|
    .cons (Field.restores_optionalText rfl) <|
    .cons (Field.restores_optionalText rfl) <|
    .cons (Field.restores_optionalText rfl) <|
    .cons (Field.restores_optionalText rfl) <|
    .cons (Field.restores_optionalText rfl) <|
    .cons (Field.restores_someRecord IoSpecification.shape_faithful
      IoSpecification.eq_of_isEmpty rfl) <|
    .cons (Field.restores_someRecord IoSpecification.shape_faithful
      IoSpecification.eq_of_isEmpty rfl) <|
    .nil r

theorem DataSourceDescriptor.shape_faithful : DataSourceDescriptor.shape.Faithful where
  distinct := by decide
  required := by simp [shape, Field.optionalText, Field.text, Field.someTexts]
  restores _ r :=
    .cons (Field.restores_optionalText rfl) <|
    .cons Field.restores_text <|
    .cons (Field.restores_optionalText rfl) <|
    .cons (Field.restores_optionalText rfl) <|
    .cons (Field.restores_optionalText rfl) <|
    .cons (Field.restores_optionalText rfl) <|
    .cons (Field.restores_optionalText rfl) <|
    .cons (Field.restores_optionalText rfl) <|
    .cons (Field.restores_optionalText rfl) <|
    .cons (Field.restores_someTexts rfl) <|
    .cons (Field.restores_someTexts rfl) <|
    .nil r

theorem descriptors_roundTrip :
    ServiceDescriptor.shape.RoundTrips ∧ DataSourceDescriptor.shape.RoundTrips ∧
      IoSpecification.shape.RoundTrips :=
  ⟨ServiceDescriptor.shape_faithful.roundTrips, DataSourceDescriptor.shape_faithful.roundTrips,
    IoSpecification.shape_faithful.roundTrips⟩

end ServiceMetadata
