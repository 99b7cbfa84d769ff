import ServiceMetadata.Proofs.Json.Records
import ServiceMetadata.Proofs.Manifest.Names

/-!
# Written manifests

A manifest's text says all that the manifest says, so what becomes of the text when it is read is a
matter of the names alone.
-/
namespace ServiceMetadata
open ServiceMetadata.Json (Field RestoresAll)

theorem ServiceRecord.shape_faithful : ServiceRecord.shape.Faithful where
  distinct := by decide +kernel
  required := by simp [shape, Field.text, Field.texts]
  restores _ r :=
    .cons Field.restores_text <|
    .cons Field.restores_text <|
    .cons Field.restores_text <|
    .cons Field.restores_text <|
    .cons Field.restores_text <|
    .cons Field.restores_text <|
    .cons Field.restores_text <|
    .cons Field.restores_text <|
    .cons Field.restores_text <|
    .cons Field.restores_text <|
    .cons Field.restores_text <|
    .cons Field.restores_texts <|
    .cons Field.restores_texts <|
    .cons Field.restores_texts <|
    .cons Field.restores_texts <|
    .cons Field.restores_texts <|
    .cons Field.restores_texts <|
    .cons Field.restores_texts <|
    .cons Field.restores_texts <|
    .cons Field.restores_texts <|
    .cons Field.restores_texts <|
    .nil r

theorem DataSourceRecord.shape_faithful : DataSourceRecord.shape.Faithful where
  distinct := by decide +kernel
  required := by simp [shape, Field.text, Field.texts]
  restores _ r :=
    .cons Field.restores_text <|
    .cons Field.restores_text <|
    .cons Field.restores_text <|
    .cons Field.restores_text <|
    .cons Field.restores_text <|
    .cons Field.restores_text <|
    .cons Field.restores_text <|
    .cons Field.restores_text <|
    .cons Field.restores_text <|
    .cons Field.restores_texts <|
    .cons Field.restores_texts <|
    .nil r

theorem ElementKind.lookup_spelling (kind : ElementKind) :
    ElementKind.variants.lookup kind.spelling = some kind := by
  cases kind <;> decide

theorem ClassDecl.shape_faithful : ClassDecl.shape.Faithful where
  distinct := by decide
  required := by
    simp [shape, Field.requiredText, Field.text, Field.variant, Field.flag, Field.optionalText,
      Field.optionalRecord]
  restores _ d :=
    .cons Field.restores_requiredText <|
    .cons (Field.restores_variant ElementKind.lookup_spelling) <|
    .cons Field.restores_flag <|
    .cons (Field.restores_optionalText rfl) <|
    .cons (Field.restores_optionalRecord ServiceRecord.shape_faithful rfl) <|
    .cons (Field.restores_optionalRecord ServiceRecord.shape_faithful rfl) <|
    .cons (Field.restores_optionalRecord DataSourceRecord.shape_faithful rfl) <|
    .nil d

theorem Manifest.shape_faithful : Manifest.shape.Faithful where
  distinct := by decide
  required := by simp [shape, Field.records]
  restores _ m := .cons (Field.restores_records ClassDecl.shape_faithful) (.nil m)

namespace Manifest

theorem parse_print_of_wellNamed {m : Manifest} (h : m.WellNamed) :
    parse (shape.print m) = .ok m :=
  parse_eq_ok_iff.2 ⟨shape_faithful.parse_print m, h⟩

theorem parse_print_of_not_wellNamed {m : Manifest} (h : ¬ m.WellNamed) :
    ∃ i d, FirstOffender m.classes i d ∧
      parse (shape.print m) = .error (.manifest d.nameError) := by
  have hread : shape.parse (shape.print m) = .ok m := shape_faithful.parse_print m
  obtain ⟨i, d, hfirst, hcheck⟩ := m.checked_check.exists_first (m.check_eq_ok_iff.not.2 h)
  refine ⟨i, d, hfirst, ?_⟩
  simp only [parse, hread, hcheck]

/-- A written manifest is read as itself just if its names are right. Else the error is about the
first declaration whose name is not. No text gives a manifest with wrong names. -/
theorem parse_print_iff_wellNamed (m : Manifest) :
    (parse (shape.print m) = .ok m ↔ m.WellNamed) ∧
      (¬ m.WellNamed → ∃ i d, FirstOffender m.classes i d ∧
        parse (shape.print m) = .error (.manifest
          (if d.HasBlankName then .blankName else .repeatedName d.name))) ∧
      ∀ text m', parse text = .ok m' → m'.WellNamed :=
  ⟨⟨fun h => (parse_eq_ok_iff.1 h).2, parse_print_of_wellNamed⟩, parse_print_of_not_wellNamed,
    fun _ _ h => (parse_eq_ok_iff.1 h).2⟩

def repeatedBeforeBlank : Manifest where
  classes := [{ name := "a.A" }, { name := "a.B", isAbstract := true, service := some {} },
    { name := "a.A", extends? := some "a.B" }, { name := "\u2003" }]

theorem parse_print_repeatedBeforeBlank :
    ¬ repeatedBeforeBlank.WellNamed ∧
      parse (shape.print repeatedBeforeBlank) = .error (.manifest (.repeatedName "a.A")) := by
  have hfirst : FirstOffender repeatedBeforeBlank.classes 2
      { name := "a.A", extends? := some "a.B" } := ⟨rfl, by decide, by decide⟩
  have hwrong : ¬ repeatedBeforeBlank.WellNamed := fun h =>
    repeatedBeforeBlank.wellNamed_iff.1 h 2 hfirst.offends
  obtain ⟨i, d, hd, herror⟩ := (parse_print_iff_wellNamed repeatedBeforeBlank).2.1 hwrong
  obtain rfl := hd.unique hfirst
  rw [if_neg (by decide)] at herror
  exact ⟨hwrong, herror⟩

end Manifest
end ServiceMetadata
