import Mathlib.Data.List.Nodup
import ServiceMetadata.Proofs.Json.Members
import ServiceMetadata.Proofs.Json.Records

/-!
# A record is read with all its parts

Whether a record is spelled as an object or as a list, its reader takes each part for the field that
it stands for. So a record is not read if one of its parts cannot be, nor if a closed shape has no
field for one of its keys.
-/
namespace ServiceMetadata.Json

variable {ρ α : Type} {src : Source} {name : String} {root n : Node} {r r' : ρ} {f : Field ρ}

theorem exists_of_mapM_ok {ε β : Type} {g : α → Except ε β} {xs : List α} {ys : List β}
    (h : xs.mapM g = .ok ys) {x : α} (hx : x ∈ xs) : ∃ y, g x = .ok y := by
  induction xs generalizing ys with
  | nil => simp at hx
  | cons first xs ih =>
    rw [List.mapM_cons] at h
    obtain ⟨y, hy, h⟩ := bind_eq_ok_iff.1 h
    obtain ⟨ys, hys, -⟩ := bind_eq_ok_iff.1 h
    rcases List.mem_cons.1 hx with rfl | hx
    · exact ⟨y, hy⟩
    · exact ih hys hx

namespace Shape
variable {shape : Shape ρ} {members : List (Key × Node)} {items : List Node}
  {seen seen' : List String}

inductive Part (shape : Shape ρ) (name : String) : Node → Node → Prop
  | member {members : List (Key × Node)} {n : Node}
      (hmember : (Key.string (.ok name), n) ∈ members) : Part shape name (.object members) n
  | item {items : List Node} {n : Node} {i : Nat} (hname : shape.fieldNames[i]? = some name)
      (hitem : items[i]? = some n) : Part shape name (.array items) n

inductive Unknown (shape : Shape ρ) : Node → Prop
  | member {members : List (Key × Node)} {name : String} (hkey : HasKey members name)
      (hname : name ∉ shape.fieldNames) : Unknown shape (.object members)

theorem exists_read_of_mem (hdistinct : shape.fieldNames.Nodup) (hf : f ∈ shape.fields)
    (h : shape.readMembers src seen r members = .ok (seen', r'))
    (hmember : (Key.string (.ok f.name), n) ∈ members) : ∃ put, f.read src n = .ok put := by
  induction members generalizing seen r with
  | nil => simp at hmember
  | cons member rest ih =>
    obtain ⟨key, first⟩ := member
    obtain ⟨name, hname, hcase⟩ := readMembers_cons h
    have hfind : shape.field? f.name = some f := field?_of_mem hdistinct hf
    rcases List.mem_cons.1 hmember with heq | hmember
    · obtain ⟨rfl, rfl⟩ := Prod.mk.inj heq
      obtain rfl : f.name = name := Except.ok.inj hname
      rcases hcase with ⟨-, hnone, -⟩ | ⟨f', put, hfind', -, hput, -⟩
      · simp [hfind] at hnone
      · obtain rfl : f = f' := Option.some.inj (hfind.symm.trans hfind')
        exact ⟨put, hput⟩
    · rcases hcase with ⟨-, -, hrest⟩ | ⟨-, put, -, -, -, hrest⟩
      · exact ih hrest hmember
      · exact ih hrest hmember

theorem exists_read_of_getElem? {length i j : Nat} {fields : List (Field ρ)}
    (h : shape.readItems src length i r fields items = .ok r') (hf : fields[j]? = some f)
    (hitem : items[j]? = some n) : ∃ put, f.read src n = .ok put := by
  induction fields generalizing items i j r with
  | nil => simp at hf
  | cons first fields ih =>
    cases items with
    | nil => simp at hitem
    | cons item items =>
      obtain ⟨put, hput, hrest⟩ := bind_eq_ok_iff.1 h
      cases j with
      | zero =>
        obtain rfl := Option.some.inj hf
        obtain rfl := Option.some.inj hitem
        exact ⟨put, hput⟩
      | succ j => exact ih hrest hf hitem

theorem Part.exists_read (hpart : shape.Part f.name root n) (hdistinct : shape.fieldNames.Nodup)
    (hf : f ∈ shape.fields) (h : shape.read src root = .ok r) : ∃ put, f.read src n = .ok put := by
  cases hpart with
  | member hmember =>
    obtain ⟨seen, hread⟩ := readMembers_of_read h
    exact exists_read_of_mem hdistinct hf hread hmember
  | item hname hitem =>
    rw [fieldNames, List.getElem?_map] at hname
    obtain ⟨f', hf', hname⟩ := Option.map_eq_some_iff.1 hname
    obtain rfl : f' = f :=
      List.inj_on_of_nodup_map hdistinct (List.mem_of_getElem? hf') hf hname
    exact exists_read_of_getElem? h hf' hitem

theorem mem_fieldNames_of_hasKey (hclosed : shape.closed = true)
    (h : shape.readMembers src seen r members = .ok (seen', r')) (hkey : HasKey members name) :
    name ∈ shape.fieldNames := by
  induction members generalizing seen r with
  | nil => simp [HasKey] at hkey
  | cons member rest ih =>
    obtain ⟨key, n⟩ := member
    obtain ⟨name', hname, ⟨hopen, -⟩ | ⟨f, put, hfind, -, -, hrest⟩⟩ := readMembers_cons h
    · simp [hclosed] at hopen
    · rcases hasKey_cons.1 hkey with rfl | hkey
      · obtain rfl : name = name' := Except.ok.inj hname
        exact List.mem_map.2 ⟨f, field?_eq_some hfind⟩
      · exact ih hrest hkey

theorem Unknown.read_ne_ok (hunknown : shape.Unknown root) (hclosed : shape.closed = true) :
    shape.read src root ≠ .ok r := by
  intro h
  cases hunknown with
  | member hkey hname =>
    obtain ⟨seen, hread⟩ := readMembers_of_read h
    exact hname (mem_fieldNames_of_hasKey hclosed hread hkey)

theorem Unknown.optionalRecord_ne_ok {σ : Type} {inner : Shape σ} {get : ρ → Option σ}
    {put : Option σ → ρ → ρ} {put' : ρ → ρ} (hunknown : inner.Unknown n)
    (hclosed : inner.closed = true) :
    (Field.optionalRecord name inner get put).read src n ≠ .ok put' := by
  intro h
  obtain ⟨record, hrecord, -⟩ := map_eq_ok_iff.1 h
  cases hunknown with
  | member hkey hname =>
    obtain ⟨r, hread, -⟩ := map_eq_ok_iff.1 hrecord
    exact (Unknown.member hkey hname).read_ne_ok hclosed hread

end Shape
end ServiceMetadata.Json
