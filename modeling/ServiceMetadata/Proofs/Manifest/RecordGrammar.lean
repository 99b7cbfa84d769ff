import ServiceMetadata.Proofs.Json.Grammar
import ServiceMetadata.Proofs.Json.Parts
import ServiceMetadata.Proofs.Manifest.Names

/-!
# The grammar of the records

The records of services and of data sources are objects of texts and of lists of texts. They are
read from just the texts that their grammars admit, so a manifest with a misspelled key in one of
them is not read at all.
-/
namespace ServiceMetadata
open ServiceMetadata.Json (Field Node ReadsAs Reading Shape Slot Source Value)

def ServiceRecord.grammar : List (Slot ServiceRecord) :=
  [.text "schema" (·.schema) "", .text "name" (·.name) "", .text "description" (·.description) "",
    .text "version" (·.version) "", .text "vendor" (·.vendor) "", .text "allow" (·.allow) "any",
    .text "license" (·.license) "", .text "license_desc" (·.licenseDesc) "",
    .text "encoding" (·.encoding) "", .text "requires_encoding" (·.requiresEncoding) "",
    .text "produces_encoding" (·.producesEncoding) "", .texts "language" (·.language),
    .texts "requires_language" (·.requiresLanguage),
    .texts "produces_language" (·.producesLanguage), .texts "format" (·.format),
    .texts "requires_format" (·.requiresFormat), .texts "produces_format" (·.producesFormat),
    .texts "requires" (·.requires), .texts "produces" (·.produces),
    .texts "requires_tagsets" (·.requiresTagsets), .texts "produces_tagsets" (·.producesTagsets)]

def DataSourceRecord.grammar : List (Slot DataSourceRecord) :=
  [.text "schema" (·.schema) "", .text "name" (·.name) "", .text "description" (·.description) "",
    .text "version" (·.version) "", .text "vendor" (·.vendor) "", .text "allow" (·.allow) "any",
    .text "license" (·.license) "", .text "license_desc" (·.licenseDesc) "",
    .text "encoding" (·.encoding) "", .texts "language" (·.language), .texts "format" (·.format)]

theorem ServiceRecord.shape_follows : ServiceRecord.shape.Follows grammar where
  closed := rfl
  optional := by simp [shape, Field.text, Field.texts]
  distinct := by decide +kernel
  fills :=
    .cons (Field.fills_text fun _ _ => rfl) <|
    .cons (Field.fills_text fun _ _ => rfl) <|
    .cons (Field.fills_text fun _ _ => rfl) <|
    .cons (Field.fills_text fun _ _ => rfl) <|
    .cons (Field.fills_text fun _ _ => rfl) <|
    .cons (Field.fills_text fun _ _ => rfl) <|
    .cons (Field.fills_text fun _ _ => rfl) <|
    .cons (Field.fills_text fun _ _ => rfl) <|
    .cons (Field.fills_text fun _ _ => rfl) <|
    .cons (Field.fills_text fun _ _ => rfl) <|
    .cons (Field.fills_text fun _ _ => rfl) <|
    .cons (Field.fills_texts fun _ _ => rfl) <|
    .cons (Field.fills_texts fun _ _ => rfl) <|
    .cons (Field.fills_texts fun _ _ => rfl) <|
    .cons (Field.fills_texts fun _ _ => rfl) <|
    .cons (Field.fills_texts fun _ _ => rfl) <|
    .cons (Field.fills_texts fun _ _ => rfl) <|
    .cons (Field.fills_texts fun _ _ => rfl) <|
    .cons (Field.fills_texts fun _ _ => rfl) <|
    .cons (Field.fills_texts fun _ _ => rfl) <|
    .cons (Field.fills_texts fun _ _ => rfl) <|
    .nil
  keeps := by
    simp [shape, grammar, Slot.text, Slot.texts, Field.keeps_text, Field.keeps_texts]
  initial := by simp [grammar, shape, Slot.text, Slot.texts, defaultAllow]
  ext r r' h := by
    simp only [grammar, Slot.text, Slot.texts, List.forall_mem_cons] at h
    cases r
    cases r'
    simp_all

theorem DataSourceRecord.shape_follows : DataSourceRecord.shape.Follows grammar where
  closed := rfl
  optional := by simp [shape, Field.text, Field.texts]
  distinct := by decide +kernel
  fills :=
    .cons (Field.fills_text fun _ _ => rfl) <|
    .cons (Field.fills_text fun _ _ => rfl) <|
    .cons (Field.fills_text fun _ _ => rfl) <|
    .cons (Field.fills_text fun _ _ => rfl) <|
    .cons (Field.fills_text fun _ _ => rfl) <|
    .cons (Field.fills_text fun _ _ => rfl) <|
    .cons (Field.fills_text fun _ _ => rfl) <|
    .cons (Field.fills_text fun _ _ => rfl) <|
    .cons (Field.fills_text fun _ _ => rfl) <|
    .cons (Field.fills_texts fun _ _ => rfl) <|
    .cons (Field.fills_texts fun _ _ => rfl) <|
    .nil
  keeps := by
    simp [shape, grammar, Slot.text, Slot.texts, Field.keeps_text, Field.keeps_texts]
  initial := by simp [grammar, shape, Slot.text, Slot.texts, defaultAllow]
  ext r r' h := by
    simp only [grammar, Slot.text, Slot.texts, List.forall_mem_cons] at h
    cases r
    cases r'
    simp_all

namespace Manifest

variable {src : Source} {root decl record : Node} {m : Manifest}

inductive Declares (root : Node) : Node → Prop
  | item {items : List Node} {decl : Node} (hclasses : shape.Part "classes" root (.array items))
      (hdecl : decl ∈ items) : Declares root decl

/-- A class declaration has a key that names none of its fields, or one of its records has. -/
inductive Misspelled (root : Node) : Prop
  | decl {decl : Node} (hdecl : Declares root decl) (hunknown : ClassDecl.shape.Unknown decl)
  | common {decl record : Node} (hdecl : Declares root decl)
      (hrecord : ClassDecl.shape.Part "common" decl record)
      (hunknown : ServiceRecord.shape.Unknown record)
  | service {decl record : Node} (hdecl : Declares root decl)
      (hrecord : ClassDecl.shape.Part "service" decl record)
      (hunknown : ServiceRecord.shape.Unknown record)
  | dataSource {decl record : Node} (hdecl : Declares root decl)
      (hrecord : ClassDecl.shape.Part "data_source" decl record)
      (hunknown : DataSourceRecord.shape.Unknown record)

theorem Declares.exists_read (hdecl : Declares root decl) (h : shape.read src root = .ok m) :
    ∃ d, ClassDecl.shape.read src decl = .ok d := by
  cases hdecl with
  | item hclasses hdecl =>
    let classes : Json.Field Manifest :=
      .records "classes" ClassDecl.shape (·.classes) fun v _ => { classes := v }
    obtain ⟨put, hput⟩ := Shape.Part.exists_read (f := classes) hclasses (by decide)
      List.mem_cons_self h
    obtain ⟨ds, hds, -⟩ := map_eq_ok_iff.1 hput
    exact Json.exists_of_mapM_ok hds hdecl

theorem Declares.record_known {σ : Type} {inner : Shape σ} {name : String}
    {get : ClassDecl → Option σ} {put : Option σ → ClassDecl → ClassDecl}
    (hf : Field.optionalRecord name inner get put ∈ ClassDecl.shape.fields)
    (hclosed : inner.closed = true) (hdecl : Declares root decl)
    (hrecord : ClassDecl.shape.Part name decl record) (h : shape.read src root = .ok m) :
    ¬ inner.Unknown record := by
  intro hunknown
  obtain ⟨d, hd⟩ := hdecl.exists_read h
  obtain ⟨put', hput⟩ := Shape.Part.exists_read hrecord (by decide) hf hd
  exact hunknown.optionalRecord_ne_ok hclosed hput

theorem Misspelled.read_ne_ok (hmisspelled : Misspelled root) : shape.read src root ≠ .ok m := by
  intro h
  cases hmisspelled with
  | decl hdecl hunknown =>
    obtain ⟨d, hd⟩ := hdecl.exists_read h
    exact hunknown.read_ne_ok rfl hd
  | common hdecl hrecord hunknown =>
    have hf : Field.optionalRecord "common" ServiceRecord.shape (·.common)
        (fun v r => { r with common := v }) ∈ ClassDecl.shape.fields := by simp [ClassDecl.shape]
    exact hdecl.record_known hf rfl hrecord h hunknown
  | service hdecl hrecord hunknown =>
    have hf : Field.optionalRecord "service" ServiceRecord.shape (·.service)
        (fun v r => { r with service := v }) ∈ ClassDecl.shape.fields := by simp [ClassDecl.shape]
    exact hdecl.record_known hf rfl hrecord h hunknown
  | dataSource hdecl hrecord hunknown =>
    have hf : Field.optionalRecord "data_source" DataSourceRecord.shape (·.dataSource)
        (fun v r => { r with dataSource := v }) ∈ ClassDecl.shape.fields := by
      simp [ClassDecl.shape]
    exact hdecl.record_known hf rfl hrecord h hunknown

theorem Misspelled.parse_eq_error {text : String}
    (hmisspelled : Misspelled (Reading.ofString text).root) : ∃ e, parse text = .error e := by
  cases hparse : parse text with
  | error e => exact ⟨e, rfl⟩
  | ok m =>
    obtain ⟨r, hread, -⟩ := bind_eq_ok_iff.1 (parse_eq_ok_iff.1 hparse).1
    exact absurd hread hmisspelled.read_ne_ok

end Manifest

/-- An object's text gives a record just if its members are admitted: under keys of the record, no
two of them under one, with a string for every text and a list of strings for every list. The record
is the one that holds what they give, in whatever order. A manifest in which a class or one of its
records has a key of no field is not read. -/
theorem records_follow_grammar :
    (∀ text members, ReadsAs text (.object members) →
      ServiceRecord.shape.ReadsBy ServiceRecord.grammar text members ∧
        DataSourceRecord.shape.ReadsBy DataSourceRecord.grammar text members) ∧
    ∀ text, Manifest.Misspelled (Reading.ofString text).root →
      ∃ e, Manifest.parse text = .error e :=
  ⟨fun _ _ htext => ⟨ServiceRecord.shape_follows.readsBy htext,
    DataSourceRecord.shape_follows.readsBy htext⟩, fun _ h => h.parse_eq_error⟩

def givenMembers : List (String × Value) :=
  [("requires", Field.textList ["urn:a", ""]), ("license", .string "mit")]

def misspelledManifest : Value :=
  .object [("classes", .array [.object [("name", .string "a.A"),
    ("data_source", .object [("license", .string "mit"), ("licence", .string "mit")])]])]

theorem records_follow_grammar_in_either_order :
    let r : ServiceRecord := { license := "mit", requires := ["urn:a", ""] }
    (ServiceRecord.shape.parse (Value.object givenMembers).pretty).toOption = some r ∧
      (ServiceRecord.shape.parse (Value.object givenMembers.reverse).pretty).toOption = some r ∧
      ¬ (∃ d, DataSourceRecord.shape.parse (Value.object [("allow", .null)]).pretty = .ok d) ∧
      ∃ e, Manifest.parse misspelledManifest.pretty = .error e := by
  intro r
  have hgiven : (Value.object givenMembers).WellSpelled :=
    ⟨⟨trivial, trivial, trivial⟩, trivial, trivial⟩
  have htext : ReadsAs (Value.object givenMembers).pretty (.object givenMembers) :=
    Json.pretty_readsAs hgiven ⟨by decide, ⟨by decide, trivial, trivial, trivial⟩, trivial, trivial⟩
  have hreversed : ReadsAs (Value.object givenMembers.reverse).pretty
      (.object givenMembers.reverse) :=
    Json.pretty_readsAs ⟨trivial, ⟨trivial, trivial, trivial⟩, trivial⟩
      ⟨by decide, trivial, ⟨by decide, trivial, trivial, trivial⟩, trivial⟩
  have hnull : ReadsAs (Value.object [("allow", .null)]).pretty (.object [("allow", .null)]) :=
    Json.pretty_readsAs ⟨trivial, trivial⟩ ⟨by decide, trivial, trivial⟩
  have hmanifest : Reading.ofString misspelledManifest.pretty =
      { root := Node.ofValue misspelledManifest, more := false } :=
    Json.reading_pretty misspelledManifest
      ⟨⟨⟨trivial, ⟨trivial, trivial, trivial⟩, trivial⟩, trivial⟩, trivial⟩
  have hread : ServiceRecord.shape.parse (Value.object givenMembers).pretty = .ok r := by
    simp only [Shape.parse, Json.reading_pretty _ hgiven]
    rfl
  obtain ⟨hrecords, hmisspelled⟩ := records_follow_grammar
  refine ⟨by rw [hread]; rfl, ?_, fun hd => ?_, hmisspelled _ ?_⟩
  · rw [(hrecords _ _ htext).1.reordered _ _ hreversed (List.reverse_perm _), hread]
    rfl
  · obtain ⟨-, -, hspelled⟩ := (hrecords _ _ hnull).2.exists_iff.1 hd
    obtain ⟨s, hs⟩ := hspelled (.text "allow" (·.allow) "any") (by simp [DataSourceRecord.grammar])
      .null List.mem_cons_self
    cases hs
  · rw [hmanifest]
    exact .dataSource (.item (.member List.mem_cons_self) List.mem_cons_self)
      (.member (List.mem_cons_of_mem _ List.mem_cons_self))
      (.member ⟨_, List.mem_cons_of_mem _ List.mem_cons_self⟩ (by decide))

end ServiceMetadata
