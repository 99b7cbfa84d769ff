import ServiceMetadata.Descriptor.Building

/-!
# The two directions of a service

Input and output are described alike: records with their directions exchanged give the descriptor
with its specifications exchanged. So neither specification depends on what the records say of the
other direction.
-/
namespace ServiceMetadata

namespace ServiceRecord

def swap (r : ServiceRecord) : ServiceRecord :=
  { r with
    requiresEncoding := r.producesEncoding
    producesEncoding := r.requiresEncoding
    requiresLanguage := r.producesLanguage
    producesLanguage := r.requiresLanguage
    requiresFormat := r.producesFormat
    producesFormat := r.requiresFormat
    requires := r.produces
    produces := r.requires
    requiresTagsets := r.producesTagsets
    producesTagsets := r.requiresTagsets }

def withInput (r s : ServiceRecord) : ServiceRecord :=
  { r with
    requiresEncoding := s.requiresEncoding
    requiresLanguage := s.requiresLanguage
    requiresFormat := s.requiresFormat
    requires := s.requires
    requiresTagsets := s.requiresTagsets }

def withOutput (r s : ServiceRecord) : ServiceRecord :=
  { r with
    producesEncoding := s.producesEncoding
    producesLanguage := s.producesLanguage
    producesFormat := s.producesFormat
    produces := s.produces
    producesTagsets := s.producesTagsets }

theorem swap_withInput (r s : ServiceRecord) : (r.withInput s).swap = r.swap.withOutput s.swap :=
  rfl

end ServiceRecord

variable {v : Vocabulary} {p : Project} {className : String} {common : Option ServiceRecord}
  {own : ServiceRecord}

namespace EffectiveMetadata

def swap (m : EffectiveMetadata) : EffectiveMetadata :=
  { m with
    inputEncoding := m.outputEncoding
    outputEncoding := m.inputEncoding
    inputLanguage := m.outputLanguage
    outputLanguage := m.inputLanguage
    inputFormat := m.outputFormat
    outputFormat := m.inputFormat
    requires := m.produces
    produces := m.requires
    requiresTagsets := m.producesTagsets
    producesTagsets := m.requiresTagsets }

theorem chain_map {α : Type} (change : ServiceRecord → ServiceRecord) (field : ServiceRecord → α) :
    chain (common.map change) (change own) field = chain common own fun r => field (change r) := by
  cases common <;> rfl

theorem merge_swap : merge (common.map .swap) own.swap = (merge common own).swap := by
  simp only [merge, chain_map]
  rfl

theorem input_swap (m : EffectiveMetadata) (v : Vocabulary) : m.swap.input v = m.output v := rfl

theorem output_swap (m : EffectiveMetadata) (v : Vocabulary) : m.swap.output v = m.input v := rfl

end EffectiveMetadata

namespace ServiceDescriptor

def swap (d : ServiceDescriptor) : ServiceDescriptor :=
  { d with requires := d.produces, produces := d.requires }

theorem build_swap :
    build v p className (common.map .swap) own.swap = (build v p className common own).swap := by
  simp only [build, EffectiveMetadata.merge_swap, EffectiveMetadata.input_swap,
    EffectiveMetadata.output_swap]
  rfl

theorem requires_withOutput (s t : ServiceRecord) :
    (build v p className (common.map (·.withOutput s)) (own.withOutput t)).requires =
      (build v p className common own).requires := by
  cases common <;> rfl

theorem produces_withInput (s t : ServiceRecord) :
    (build v p className (common.map (·.withInput s)) (own.withInput t)).produces =
      (build v p className common own).produces := by
  have hcommon : (common.map (·.withInput s)).map ServiceRecord.swap =
      (common.map ServiceRecord.swap).map (·.withOutput s.swap) := by
    cases common <;> rfl
  calc (build v p className (common.map (·.withInput s)) (own.withInput t)).produces
    _ = (build v p className (common.map (·.withInput s)) (own.withInput t)).swap.requires := rfl
    _ = (build v p className ((common.map ServiceRecord.swap).map (·.withOutput s.swap))
          (own.swap.withOutput t.swap)).requires := by
      rw [← build_swap, hcommon, ServiceRecord.swap_withInput]
    _ = (build v p className common own).swap.requires := by
      rw [requires_withOutput, build_swap]

/-- A service whose records say of the output what they said of the input, and the other way round,
gets its two specifications exchanged and nothing else. What it requires depends on nothing that the
records say of the output only, and what it produces on nothing that they say of the input only. -/
theorem build_directions (v : Vocabulary) (p : Project) (className : String)
    (common : Option ServiceRecord) (own : ServiceRecord) :
    let d := build v p className common own
    build v p className (common.map .swap) own.swap =
        { d with requires := d.produces, produces := d.requires } ∧
      (∀ s t, (build v p className (common.map (·.withOutput s)) (own.withOutput t)).requires =
        d.requires) ∧
      ∀ s t, (build v p className (common.map (·.withInput s)) (own.withInput t)).produces =
        d.produces :=
  ⟨build_swap, requires_withOutput, produces_withInput⟩

end ServiceDescriptor
end ServiceMetadata
