import ServiceMetadata.Proofs.Json.Records

/-!
# Values without blanks

A written value, read as a JSON value, is itself, so long as it is not too deep and has no number
out of range. What a record's fields write has no blank if none of them writes one.
-/
namespace ServiceMetadata.Json
open ServiceMetadata.Text (SortedTable)

variable {ρ σ : Type} {r : ρ} {depth : Nat} {name : String}

mutual

/-- Nothing in the value, at any depth, is null or empty. -/
def Value.NoBlank : Value → Prop
  | .null => False
  | .bool _ => True
  | .number _ => True
  | .string s => s ≠ ""
  | .array items => items ≠ [] ∧ NoBlankItems items
  | .object members => members ≠ [] ∧ NoBlankMembers members

def NoBlankItems : List Value → Prop
  | [] => True
  | v :: items => v.NoBlank ∧ NoBlankItems items

def NoBlankMembers : List (String × Value) → Prop
  | [] => True
  | (k, v) :: members => k ≠ "" ∧ v.NoBlank ∧ NoBlankMembers members

end

mutual

def Value.Readable (depth : Nat) : Value → Prop
  | .null => True
  | .bool _ => True
  | .number n => n.quantity.isSome = true
  | .string _ => True
  | .array items => depth < greatestDepth ∧ ReadableItems (depth + 1) items
  | .object members => depth < greatestDepth ∧ ReadableMembers (depth + 1) members

def ReadableItems (depth : Nat) : List Value → Prop
  | [] => True
  | v :: items => v.Readable depth ∧ ReadableItems depth items

def ReadableMembers (depth : Nat) : List (String × Value) → Prop
  | [] => True
  | (_, v) :: members => v.Readable depth ∧ ReadableMembers depth members

end

mutual

theorem value_ofValue : (v : Value) → (depth : Nat) → v.Readable depth →
    (Node.ofValue v).value depth = .ok v
  | .null, _, _ => rfl
  | .bool _, _, _ => rfl
  | .number n, _, h => if_pos h
  | .string _, _, _ => rfl
  | .array items, depth, ⟨hdepth, hitems⟩ => by
    rw [Node.ofValue, Node.value, if_pos hdepth, valuesOfItems_ofValue items (depth + 1) hitems]
    rfl
  | .object members, depth, ⟨hdepth, hmembers⟩ => by
    rw [Node.ofValue, Node.value, if_pos hdepth,
      valuesOfMembers_ofValue members (depth + 1) hmembers]
    rfl

theorem valuesOfItems_ofValue : (items : List Value) → (depth : Nat) → ReadableItems depth items →
    valuesOfItems depth (nodesOfItems items) = .ok items
  | [], _, _ => rfl
  | v :: items, depth, ⟨hv, hitems⟩ => by
    rw [nodesOfItems, valuesOfItems, value_ofValue v depth hv,
      valuesOfItems_ofValue items depth hitems]
    rfl

theorem valuesOfMembers_ofValue : (members : List (String × Value)) → (depth : Nat) →
    ReadableMembers depth members → valuesOfMembers depth (nodesOfMembers members) = .ok members
  | [], _, _ => rfl
  | (k, v) :: members, depth, ⟨hv, hmembers⟩ => by
    rw [nodesOfMembers, valuesOfMembers, value_ofValue v depth hv,
      valuesOfMembers_ofValue members depth hmembers]
    rfl

end

/-- The text is one JSON value and nothing more. -/
def ReadsAs (text : String) (v : Value) : Prop :=
  (Reading.ofString text).more = false ∧ (Reading.ofString text).root.value 0 = .ok v

theorem pretty_readsAs {v : Value} (hspelled : v.WellSpelled) (hread : v.Readable 0) :
    ReadsAs v.pretty v := by
  rw [ReadsAs, reading_pretty v hspelled]
  exact ⟨rfl, value_ofValue v 0 hread⟩

def Field.WritesNoBlank (f : Field ρ) (depth : Nat) (r : ρ) : Prop :=
  ∀ v, f.write r = some v → v.NoBlank ∧ v.Readable depth

theorem membersOf_noBlank {fields : List (Field ρ)} (hnames : "" ∉ fields.map (·.name))
    (h : ∀ f ∈ fields, f.WritesNoBlank depth r) :
    NoBlankMembers (membersOf r fields) ∧ ReadableMembers depth (membersOf r fields) := by
  induction fields with
  | nil => exact ⟨trivial, trivial⟩
  | cons f fields ih =>
    obtain ⟨hname, hnames⟩ := not_or.1 (mt List.mem_cons.2 hnames)
    have hrest := ih hnames fun g hg => h g (List.mem_cons_of_mem f hg)
    cases hf : f.write r with
    | none => rwa [membersOf_omitted fields hf]
    | some v =>
      obtain ⟨hblank, hread⟩ := h f List.mem_cons_self v hf
      rw [membersOf_written fields hf]
      exact ⟨⟨Ne.symm hname, hblank, hrest.1⟩, hread, hrest.2⟩

theorem Shape.write_noBlank {shape : Shape ρ} (hdepth : depth < greatestDepth)
    (hnames : "" ∉ shape.fieldNames) (hfields : ∀ f ∈ shape.fields, f.WritesNoBlank (depth + 1) r)
    (hsome : ∃ f ∈ shape.fields, (f.write r).isSome = true) :
    (shape.write r).NoBlank ∧ (shape.write r).Readable depth := by
  obtain ⟨hblank, hread⟩ := membersOf_noBlank hnames hfields
  obtain ⟨f, hf, hwritten⟩ := hsome
  obtain ⟨v, hv⟩ := Option.isSome_iff_exists.1 hwritten
  have hmem : (f.name, v) ∈ membersOf r shape.fields :=
    List.mem_filterMap.2 ⟨f, hf, by rw [hv]; rfl⟩
  exact ⟨⟨List.ne_nil_of_mem hmem, hblank⟩, hdepth, hread⟩

theorem Shape.Faithful.print_readsAs {shape : Shape ρ} (h : shape.Faithful)
    (hread : (shape.write r).Readable 0) : ReadsAs (shape.print r) (shape.write r) :=
  pretty_readsAs (h.wellSpelled_write r) hread

namespace Field

theorem writesNoBlank_text {get : ρ → String} {put : String → ρ → ρ} (h : get r ≠ "") :
    (text name get put).WritesNoBlank depth r := by
  intro v hv
  obtain rfl := Option.some.inj hv
  exact ⟨h, trivial⟩

theorem writesNoBlank_optionalText {get : ρ → Option String} {put : Option String → ρ → ρ}
    (h : get r ≠ some "") : (optionalText name get put).WritesNoBlank depth r := by
  intro v hv
  obtain ⟨s, hs, rfl⟩ := Option.map_eq_some_iff.1 hv
  exact ⟨fun hempty => h (by rw [hs, hempty]), trivial⟩

theorem textItems_noBlank {texts : List String} (h : "" ∉ texts) :
    NoBlankItems (texts.map .string) ∧ ReadableItems depth (texts.map .string) := by
  induction texts with
  | nil => exact ⟨trivial, trivial⟩
  | cons s texts ih =>
    obtain ⟨hs, hrest⟩ := not_or.1 (mt List.mem_cons.2 h)
    obtain ⟨hblank, hread⟩ := ih hrest
    exact ⟨⟨Ne.symm hs, hblank⟩, trivial, hread⟩

theorem writesNoBlank_someTexts {get : ρ → List String} {put : List String → ρ → ρ}
    (hdepth : depth < greatestDepth) (h : "" ∉ get r) :
    (someTexts name get put).WritesNoBlank depth r := by
  intro v hv
  simp only [someTexts] at hv
  split at hv
  · simp at hv
  · rename_i hne
    obtain rfl := Option.some.inj hv
    obtain ⟨hblank, hread⟩ := textItems_noBlank h
    exact ⟨⟨by simpa using hne, hblank⟩, hdepth, hread⟩

theorem tableMembers_noBlank {rows : List (String × String)}
    (h : ∀ row ∈ rows, row.1 ≠ "" ∧ row.2 ≠ "") :
    NoBlankMembers (rows.map fun row => (row.1, .string row.2)) ∧
      ReadableMembers depth (rows.map fun row => (row.1, .string row.2)) := by
  induction rows with
  | nil => exact ⟨trivial, trivial⟩
  | cons row rows ih =>
    obtain ⟨hkey, hvalue⟩ := h row List.mem_cons_self
    obtain ⟨hblank, hread⟩ := ih fun row' hrow => h row' (List.mem_cons_of_mem row hrow)
    exact ⟨⟨hkey, hvalue, hblank⟩, trivial, hread⟩

theorem writesNoBlank_someTable {get : ρ → SortedTable} {put : SortedTable → ρ → ρ}
    (hdepth : depth < greatestDepth) (h : ∀ row ∈ (get r).rows, row.1 ≠ "" ∧ row.2 ≠ "") :
    (someTable name get put).WritesNoBlank depth r := by
  intro v hv
  simp only [someTable] at hv
  split at hv
  · simp at hv
  · rename_i hne
    obtain rfl := Option.some.inj hv
    have hrows : (get r).rows ≠ [] := by simpa [SortedTable.isEmpty] using hne
    obtain ⟨hblank, hread⟩ := tableMembers_noBlank h
    exact ⟨⟨by simpa using hrows, hblank⟩, hdepth, hread⟩

theorem writesNoBlank_someRecord {shape : Shape σ} {isEmpty : σ → Bool} {get : ρ → σ}
    {put : σ → ρ → ρ}
    (h : isEmpty (get r) = false →
      (shape.write (get r)).NoBlank ∧ (shape.write (get r)).Readable depth) :
    (someRecord name shape isEmpty get put).WritesNoBlank depth r := by
  intro v hv
  simp only [someRecord] at hv
  split at hv
  · simp at hv
  · rename_i hne
    obtain rfl := Option.some.inj hv
    exact h (by simpa using hne)

end Field
end ServiceMetadata.Json
