import Mathlib.Logic.Function.Basic
import ServiceMetadata.Json.Shape
import ServiceMetadata.Proofs.Json.Trees

/-!
# Written records are read back

Fields are written in their order and read in the same order. A field that is left out has to leave
nothing to restore: what the record that is read into holds there already is what was left out.
-/
namespace ServiceMetadata.Json
open ServiceMetadata.Text (SortedTable)

variable {ρ σ : Type} {src : Source} {r acc next : ρ}

inductive Field.Restores (f : Field ρ) (src : Source) (r acc : ρ) : ρ → Prop
  | omitted (h : f.write r = none) : Restores f src r acc acc
  | written {v : Value} {put : ρ → ρ} (h : f.write r = some v) (hv : v.WellSpelled)
      (hread : f.read src (Node.ofValue v) = .ok put) : Restores f src r acc (put acc)

inductive RestoresAll (src : Source) (r : ρ) : List (Field ρ) → ρ → ρ → Prop
  | nil (acc : ρ) : RestoresAll src r [] acc acc
  | cons {f : Field ρ} {fields : List (Field ρ)} {acc mid next : ρ}
      (h : f.Restores src r acc mid) (hrest : RestoresAll src r fields mid next) :
      RestoresAll src r (f :: fields) acc next

def membersOf (r : ρ) (fields : List (Field ρ)) : List (String × Value) :=
  fields.filterMap fun f => (f.write r).map fun v => (f.name, v)

theorem membersOf_omitted {f : Field ρ} (fields : List (Field ρ)) (h : f.write r = none) :
    membersOf r (f :: fields) = membersOf r fields := by
  simp [membersOf, h]

theorem membersOf_written {f : Field ρ} {v : Value} (fields : List (Field ρ))
    (h : f.write r = some v) : membersOf r (f :: fields) = (f.name, v) :: membersOf r fields := by
  simp [membersOf, h]

theorem filter_membersOf_of_not_mem {fields : List (Field ρ)} {name : String}
    (h : name ∉ fields.map (·.name)) : (membersOf r fields).filter (·.1 = name) = [] := by
  rw [List.filter_eq_nil_iff]
  intro member hmem hname
  obtain ⟨f, hf, hwrite⟩ := List.mem_filterMap.1 hmem
  obtain ⟨v, -, rfl⟩ := Option.map_eq_some_iff.1 hwrite
  obtain rfl : f.name = name := by simpa using hname
  exact h (List.mem_map_of_mem hf)

theorem filter_membersOf {fields : List (Field ρ)} {f : Field ρ}
    (hdistinct : (fields.map (·.name)).Nodup) (hf : f ∈ fields) :
    (membersOf r fields).filter (·.1 = f.name) =
      ((f.write r).map fun v => (f.name, v)).toList := by
  induction fields with
  | nil => simp at hf
  | cons g fields ih =>
    obtain ⟨hfirst, hdistinct⟩ := List.nodup_cons.1 hdistinct
    rcases List.mem_cons.1 hf with rfl | hf
    · have hrest := filter_membersOf_of_not_mem (r := r) hfirst
      cases hw : f.write r with
      | none => rw [membersOf_omitted fields hw, hrest]; rfl
      | some v => rw [membersOf_written fields hw, List.filter_cons_of_pos (by simp), hrest]; rfl
    · have hne : g.name ≠ f.name := fun h => hfirst (List.mem_map.2 ⟨f, hf, h.symm⟩)
      cases hw : g.write r with
      | none => rw [membersOf_omitted fields hw, ih hdistinct hf]
      | some v =>
        rw [membersOf_written fields hw, List.filter_cons_of_neg (by simpa using hne),
          ih hdistinct hf]

/-- Read as JSON, the text is an object that gives a string under the name, or leaves it out. -/
def Gives (text name : String) (value : Option String) : Prop :=
  ∃ members, Reading.ofString text = { root := Node.ofValue (.object members), more := false } ∧
    members.filter (·.1 = name) = (value.map fun v => (name, Value.string v)).toList

theorem RestoresAll.wellSpelled {fields : List (Field ρ)} (h : RestoresAll src r fields acc next) :
    WellSpelledMembers (membersOf r fields) := by
  induction h with
  | nil => trivial
  | @cons f fields _ _ _ hf _ ih =>
    cases hf with
    | omitted hw => rwa [membersOf_omitted fields hw]
    | written hw hv _ =>
      rw [membersOf_written fields hw]
      exact ⟨hv, ih⟩

namespace Shape
variable {shape : Shape ρ}

theorem field?_of_mem (hdistinct : shape.fieldNames.Nodup) {f : Field ρ} (hf : f ∈ shape.fields) :
    shape.field? f.name = some f := by
  obtain ⟨before, after, hfields⟩ := List.append_of_mem hf
  have hbefore : ∀ g ∈ before, g.name ≠ f.name := by
    rw [fieldNames, hfields, List.map_append, List.nodup_append] at hdistinct
    intro g hg
    exact hdistinct.2.2 _ (List.mem_map_of_mem hg) _ (by simp)
  rw [field?, hfields, List.find?_append]
  rw [List.find?_eq_none.2 (by simpa using hbefore), Option.none_or]
  simp

theorem readMembers_member {f : Field ρ} {seen : List String} {n : Node} {put : ρ → ρ}
    (rest : List (Key × Node)) (hfind : shape.field? f.name = some f) (hnew : f.name ∉ seen)
    (hread : f.read src n = .ok put) :
    shape.readMembers src seen acc ((.string (.ok f.name), n) :: rest) =
      shape.readMembers src (f.name :: seen) (put acc) rest := by
  rw [readMembers]
  simp only [Key.read, spelled, bind, Except.bind, hfind, if_neg hnew, hread]

theorem readMembers_written {fields : List (Field ρ)} {seen : List String}
    (h : RestoresAll src r fields acc next)
    (hfind : ∀ f ∈ fields, shape.field? f.name = some f)
    (hdistinct : (fields.map (·.name)).Nodup) (hnew : ∀ f ∈ fields, f.name ∉ seen) :
    shape.readMembers src seen acc (nodesOfMembers (membersOf r fields)) =
      .ok (((membersOf r fields).map (·.1)).reverse ++ seen, next) := by
  induction h generalizing seen with
  | nil => rfl
  | @cons f fields _ _ _ hf _ ih =>
    obtain ⟨hfirst, hdistinct⟩ := List.nodup_cons.1 hdistinct
    have hfindRest : ∀ g ∈ fields, shape.field? g.name = some g := fun g hg =>
      hfind g (List.mem_cons_of_mem f hg)
    have hnewRest : ∀ g ∈ fields, g.name ∉ seen := fun g hg => hnew g (List.mem_cons_of_mem f hg)
    cases hf with
    | omitted hw =>
      rw [membersOf_omitted fields hw]
      exact ih hfindRest hdistinct hnewRest
    | written hw _ hread =>
      -- the name just read joins the names that the later fields have to differ from
      have hrest : ∀ g ∈ fields, g.name ∉ f.name :: seen := by
        intro g hg hmem
        rcases List.mem_cons.1 hmem with hname | hmem
        · exact hfirst (List.mem_map.2 ⟨g, hg, hname⟩)
        · exact hnewRest g hg hmem
      rw [membersOf_written fields hw, nodesOfMembers,
        readMembers_member _ (hfind f List.mem_cons_self) (hnew f List.mem_cons_self) hread,
        ih hfindRest hdistinct hrest]
      simp

/-- Printing loses nothing: a printed record is read as itself, so no two records have one text, and
what is read from any text survives being printed. -/
structure RoundTrips (shape : Shape ρ) : Prop where
  parse_print : ∀ r, shape.parse (shape.print r) = .ok r
  print_injective : Function.Injective shape.print
  parse_print_of_parse : ∀ text r, shape.parse text = .ok r →
    shape.parse (shape.print r) = shape.parse text

structure Faithful (shape : Shape ρ) : Prop where
  distinct : shape.fieldNames.Nodup
  required : ∀ f ∈ shape.fields, f.required = true → ∀ r, ∃ v, f.write r = some v
  restores : ∀ src r, RestoresAll src r shape.fields shape.initial r

namespace Faithful

theorem wellSpelled_write (h : shape.Faithful) (r : ρ) : (shape.write r).WellSpelled :=
  (h.restores .text r).wellSpelled

theorem read_write (h : shape.Faithful) (src : Source) (r : ρ) :
    shape.read src (Node.ofValue (shape.write r)) = .ok r := by
  have hmembers : shape.readMembers src [] shape.initial
      (nodesOfMembers (membersOf r shape.fields)) =
      .ok (((membersOf r shape.fields).map (·.1)).reverse ++ [], r) :=
    readMembers_written (h.restores src r) (fun f => field?_of_mem h.distinct) h.distinct
      fun _ _ => List.not_mem_nil
  have hgiven : shape.fields.find? (fun f => f.required &&
      f.name ∉ ((membersOf r shape.fields).map (·.1)).reverse ++ []) = none := by
    rw [List.find?_eq_none]
    intro f hf
    cases hrequired : f.required with
    | false => simp
    | true =>
      obtain ⟨v, hv⟩ := h.required f hf hrequired r
      have hmem : (f.name, v) ∈ membersOf r shape.fields :=
        List.mem_filterMap.2 ⟨f, hf, by rw [hv]; rfl⟩
      simpa using ⟨v, hmem⟩
  have hwrite : Node.ofValue (shape.write r) =
      .object (nodesOfMembers (membersOf r shape.fields)) := rfl
  rw [hwrite, read]
  simp only [bind, Except.bind, hmembers, hgiven]
  rfl

theorem parse_print (h : shape.Faithful) (r : ρ) : shape.parse (shape.print r) = .ok r := by
  have hreading := reading_pretty (shape.write r) (h.wellSpelled_write r)
  simp only [parse, print, hreading, bind, Except.bind, h.read_write .text r]
  rfl

theorem gives_print (h : shape.Faithful) {f : Field ρ} {value : Option String}
    (hf : f ∈ shape.fields) (hwrite : f.write r = value.map .string) :
    Gives (shape.print r) f.name value := by
  refine ⟨_, reading_pretty (shape.write r) (h.wellSpelled_write r), ?_⟩
  have hmembers := filter_membersOf (r := r) h.distinct hf
  rw [hwrite, Option.map_map] at hmembers
  exact hmembers

theorem roundTrips (h : shape.Faithful) : shape.RoundTrips := by
  refine ⟨h.parse_print, fun r r' heq => ?_, fun text r htext => ?_⟩
  · have hparse := h.parse_print r
    rw [heq, h.parse_print r'] at hparse
    exact (Except.ok.inj hparse).symm
  · rw [h.parse_print r, htext]

end Faithful
end Shape

namespace Field
variable {name : String}

theorem restores_text {get : ρ → String} {put : String → ρ → ρ} :
    (text name get put).Restores src r acc (put (get r) acc) :=
  .written rfl trivial rfl

theorem restores_requiredText {get : ρ → String} {put : String → ρ → ρ} :
    (requiredText name get put).Restores src r acc (put (get r) acc) :=
  .written rfl trivial rfl

theorem restores_flag {get : ρ → Bool} {put : Bool → ρ → ρ} :
    (flag name get put).Restores src r acc (put (get r) acc) :=
  .written rfl trivial rfl

theorem restores_variant {variants : List (String × σ)} {spell : σ → String} {get : ρ → σ}
    {put : σ → ρ → ρ} (hspell : ∀ a, variants.lookup (spell a) = some a) :
    (variant name variants spell get put).Restores src r acc (put (get r) acc) := by
  have hread : readName variants src (.string (.ok (spell (get r)))) = .ok (get r) := by
    cases src <;>
      simp only [readName, readNameInText, readNameInValue, spelled, bind, Except.bind, named,
        hspell]
  refine .written (v := .string (spell (get r))) rfl trivial ?_
  simp only [variant, Node.ofValue, hread]
  rfl

theorem restores_optionalText {get : ρ → Option String} {put : Option String → ρ → ρ}
    (habsent : put none acc = acc) :
    (optionalText name get put).Restores src r acc (put (get r) acc) := by
  cases h : get r with
  | none =>
    rw [habsent]
    exact .omitted (by simp [optionalText, h])
  | some s => exact .written (v := .string s) (by simp [optionalText, h]) trivial rfl

theorem wellSpelled_textList (texts : List String) : (textList texts).WellSpelled := by
  induction texts with
  | nil => trivial
  | cons s texts ih => exact ⟨trivial, ih⟩

theorem readTexts_textList (src : Source) (texts : List String) :
    readTexts src (Node.ofValue (textList texts)) = .ok texts := by
  have hitems : (nodesOfItems (texts.map .string)).mapM (readText src) = .ok texts := by
    induction texts with
    | nil => rfl
    | cons s texts ih =>
      rw [List.map_cons, nodesOfItems, List.mapM_cons, ih]
      rfl
  exact hitems

theorem restores_texts {get : ρ → List String} {put : List String → ρ → ρ} :
    (texts name get put).Restores src r acc (put (get r) acc) := by
  refine .written (v := textList (get r)) rfl (wellSpelled_textList (get r)) ?_
  simp only [texts, readTexts_textList]
  rfl

theorem restores_someTexts {get : ρ → List String} {put : List String → ρ → ρ}
    (habsent : put [] acc = acc) :
    (someTexts name get put).Restores src r acc (put (get r) acc) := by
  cases h : get r with
  | nil =>
    rw [habsent]
    exact .omitted (by simp [someTexts, h])
  | cons s texts =>
    refine .written (v := textList (s :: texts)) (by simp [someTexts, h])
      (wellSpelled_textList (s :: texts)) ?_
    simp only [someTexts, readTexts_textList]
    rfl

theorem wellSpelled_tableMembers (rows : List (String × String)) :
    WellSpelledMembers (rows.map fun row => (row.1, .string row.2)) := by
  induction rows with
  | nil => trivial
  | cons row rows ih => exact ⟨trivial, ih⟩

theorem readRows_tableMembers (src : Source) (rows : List (String × String)) :
    readRows src (nodesOfMembers (rows.map fun row => (row.1, .string row.2))) = .ok rows := by
  induction rows with
  | nil => rfl
  | cons row rows ih =>
    rw [List.map_cons, nodesOfMembers, readRows, ih]
    rfl

theorem restores_someTable {get : ρ → SortedTable} {put : SortedTable → ρ → ρ}
    (habsent : put SortedTable.empty acc = acc) :
    (someTable name get put).Restores src r acc (put (get r) acc) := by
  cases h : (get r).rows with
  | nil =>
    have hempty : get r = SortedTable.empty := SortedTable.eq_of_rows h
    rw [hempty, habsent]
    exact .omitted (by simp [someTable, SortedTable.isEmpty, h])
  | cons row rows =>
    have hwrite : (someTable name get put).write r =
        some (.object ((get r).rows.map fun row => (row.1, .string row.2))) := by
      simp [someTable, SortedTable.isEmpty, h]
    refine .written hwrite (wellSpelled_tableMembers (get r).rows) ?_
    simp only [someTable, Node.ofValue, readTable, readRows_tableMembers]
    rw [Except.map, SortedTable.ofRows_rows]
    rfl

theorem restores_optionalRecord {shape : Shape σ} (hshape : shape.Faithful)
    {get : ρ → Option σ} {put : Option σ → ρ → ρ} (habsent : put none acc = acc) :
    (optionalRecord name shape get put).Restores src r acc (put (get r) acc) := by
  cases h : get r with
  | none =>
    rw [habsent]
    exact .omitted (by simp [optionalRecord, h])
  | some s =>
    -- a written record is an object, and so not taken for one that is left out
    have hread : readOption shape.read src (Node.ofValue (shape.write s)) = .ok (some s) :=
      congrArg (Except.map some) (hshape.read_write src s)
    refine .written (v := shape.write s) (by simp [optionalRecord, h])
      (hshape.wellSpelled_write s) ?_
    simp only [optionalRecord, hread]
    rfl

theorem wellSpelled_records {shape : Shape σ} (hshape : shape.Faithful) (records : List σ) :
    (Value.array (records.map shape.write)).WellSpelled := by
  induction records with
  | nil => trivial
  | cons s records ih => exact ⟨hshape.wellSpelled_write s, ih⟩

theorem mapM_read_records {shape : Shape σ} (hshape : shape.Faithful) (src : Source)
    (records : List σ) :
    (nodesOfItems (records.map shape.write)).mapM (shape.read src) = .ok records := by
  induction records with
  | nil => rfl
  | cons s records ih =>
    rw [List.map_cons, nodesOfItems, List.mapM_cons, hshape.read_write, ih]
    rfl

theorem restores_records {shape : Shape σ} (hshape : shape.Faithful) {get : ρ → List σ}
    {put : List σ → ρ → ρ} :
    (records name shape get put).Restores src r acc (put (get r) acc) := by
  refine .written (v := .array ((get r).map shape.write)) rfl
    (wellSpelled_records hshape (get r)) ?_
  simp only [records, Node.ofValue, mapM_read_records hshape]
  rfl

theorem restores_someRecord {shape : Shape σ} (hshape : shape.Faithful) {isEmpty : σ → Bool}
    {get : ρ → σ} {put : σ → ρ → ρ} (hempty : ∀ s, isEmpty s = true → s = shape.initial)
    (habsent : put shape.initial acc = acc) :
    (someRecord name shape isEmpty get put).Restores src r acc (put (get r) acc) := by
  cases h : isEmpty (get r) with
  | true =>
    rw [hempty (get r) h, habsent]
    exact .omitted (by simp [someRecord, h])
  | false =>
    refine .written (v := shape.write (get r)) (by simp [someRecord, h])
      (hshape.wellSpelled_write (get r)) ?_
    simp only [someRecord, hshape.read_write]
    rfl

end Field
end ServiceMetadata.Json
