import Mathlib.Data.List.Forall2
import Mathlib.Data.List.Nodup
import ServiceMetadata.Proofs.Json.Members
import ServiceMetadata.Proofs.Json.Values

/-!
# What a record is read from

A grammar says under which keys the members of a record stand and how their values are spelled. A
shape that follows it reads just the objects whose members are under its keys, no two of them under
one, each with a value that its key admits. The record then holds what the members give, and where
they give nothing what it holds if nothing is given.
-/
namespace ServiceMetadata.Json
open ServiceMetadata.Json.Field (textList)

/-- A part of a record: the key that it stands under, how it is spelled, and what it is if nothing
stands there. -/
structure Slot (ρ : Type) where
  key : String
  {Content : Type}
  spell : Content → Value
  get : ρ → Content
  missing : Content

variable {ρ : Type}

def Slot.text (key : String) (get : ρ → String) (missing : String) : Slot ρ :=
  ⟨key, .string, get, missing⟩

def Slot.texts (key : String) (get : ρ → List String) : Slot ρ := ⟨key, textList, get, []⟩

variable {α : Type} {src : Source} {depth : Nat} {n : Node} {v : Value} {s name : String}
  {l : List String} {text : String} {slot : Slot ρ} {grammar : List (Slot ρ)}
  {members members' rest : List (String × Value)} {nodes : List (Key × Node)} {r r' : ρ}

structure Admits (grammar : List (Slot ρ)) (members : List (String × Value)) : Prop where
  known : ∀ name ∈ members.map (·.1), name ∈ grammar.map (·.key)
  once : (members.map (·.1)).Nodup
  spelled : ∀ slot ∈ grammar, ∀ v, (slot.key, v) ∈ members → ∃ a, v = slot.spell a

structure Holds (grammar : List (Slot ρ)) (members : List (String × Value)) (r : ρ) : Prop where
  given : ∀ slot ∈ grammar, ∀ a, (slot.key, slot.spell a) ∈ members → slot.get r = a
  missing : ∀ slot ∈ grammar, slot.key ∉ members.map (·.1) → slot.get r = slot.missing

inductive Node.Spells (depth : Nat) : Node → Value → Prop
  | null : Spells depth .null .null
  | bool (b : Bool) : Spells depth (.bool b) (.bool b)
  | number (x : Number) : Spells depth (.number x) (.number x)
  | string (s : String) : Spells depth (.string (.ok s)) (.string s)
  | array {items : List Node} {values : List Value}
      (hitems : valuesOfItems (depth + 1) items = .ok values) :
      Spells depth (.array items) (.array values)
  | object {nodes : List (Key × Node)} {members : List (String × Value)}
      (hmembers : valuesOfMembers (depth + 1) nodes = .ok members) :
      Spells depth (.object nodes) (.object members)

theorem Node.spells_of_value (h : n.value depth = .ok v) : n.Spells depth v := by
  cases n with
  | null => exact Except.ok.inj h ▸ .null
  | bool b => exact Except.ok.inj h ▸ .bool b
  | number x =>
    rw [value] at h
    split at h
    · exact Except.ok.inj h ▸ .number x
    · cases h
  | string x =>
    obtain ⟨s, rfl, rfl⟩ := map_eq_ok_iff.1 h
    exact .string s
  | array items =>
    rw [value] at h
    split at h
    · obtain ⟨values, hitems, rfl⟩ := map_eq_ok_iff.1 h
      exact .array hitems
    · cases h
  | object nodes =>
    rw [value] at h
    split at h
    · obtain ⟨members, hmembers, rfl⟩ := map_eq_ok_iff.1 h
      exact .object hmembers
    · cases h
  | fault f => cases h

structure Field.Fills (f : Field ρ) (slot : Slot ρ) : Prop where
  name : f.name = slot.key
  reads : ∀ {src n depth v}, n.Spells depth v →
    ((∃ put, f.read src n = .ok put) ↔ ∃ a, v = slot.spell a)
  sets : ∀ {src n depth a put}, n.Spells depth (slot.spell a) → f.read src n = .ok put →
    ∀ r, slot.get (put r) = a

structure Shape.Follows (shape : Shape ρ) (grammar : List (Slot ρ)) : Prop where
  closed : shape.closed = true
  optional : ∀ f ∈ shape.fields, f.required = false
  distinct : shape.fieldNames.Nodup
  fills : List.Forall₂ Field.Fills shape.fields grammar
  keeps : ∀ f ∈ shape.fields, ∀ slot ∈ grammar, f.name ≠ slot.key → f.Keeps slot.get
  initial : ∀ slot ∈ grammar, slot.get shape.initial = slot.missing
  ext : ∀ r r', (∀ slot ∈ grammar, slot.get r = slot.get r') → r = r'

theorem mistyped_ne_ok {wanted : String} {a : α} : mistyped wanted n ≠ .ok a := by
  rw [mistyped]
  cases n.found <;> simp

theorem readText_eq_ok_iff (h : n.Spells depth v) : readText src n = .ok s ↔ v = .string s := by
  cases h <;> simp [readText, spelled, mistyped_ne_ok]

theorem mapM_readText_eq_ok_iff {items : List Node} {values : List Value}
    (h : valuesOfItems depth items = .ok values) :
    items.mapM (readText src) = .ok l ↔ values = l.map .string := by
  induction items generalizing values l with
  | nil =>
    obtain rfl := Except.ok.inj h
    cases l <;> simp [pure, Except.pure]
  | cons n items ih =>
    obtain ⟨v, hv, h⟩ := bind_eq_ok_iff.1 h
    obtain ⟨values, hvalues, h⟩ := bind_eq_ok_iff.1 h
    obtain rfl := Except.ok.inj h
    have hfirst : ∀ s, readText src n = .ok s ↔ v = .string s := fun s =>
      readText_eq_ok_iff (Node.spells_of_value hv)
    simp only [List.mapM_cons, bind_eq_ok_iff, hfirst, ih hvalues]
    cases l <;> simp [pure, Except.pure]

theorem readTexts_eq_ok_iff (h : n.Spells depth v) :
    readTexts src n = .ok l ↔ v = textList l := by
  cases h with
  | array hitems => simp [readTexts, mapM_readText_eq_ok_iff hitems, textList]
  | _ => simp [readTexts, mistyped_ne_ok, textList]

theorem Field.fills_of_read {f : Field ρ} {read : Reader slot.Content}
    {put : slot.Content → ρ → ρ} (hname : f.name = slot.key)
    (hread : ∀ src n, f.read src n = (read src n).map put)
    (hspell : ∀ {src n depth v a}, n.Spells depth v → (read src n = .ok a ↔ v = slot.spell a))
    (hget : ∀ a r, slot.get (put a r) = a) : f.Fills slot where
  name := hname
  reads hn := by simp [hread, map_eq_ok_iff, hspell hn]
  sets {src n depth a put'} hn hput r := by
    rw [hread] at hput
    obtain ⟨b, hb, rfl⟩ := map_eq_ok_iff.1 hput
    have ha : read src n = .ok a := (hspell hn).2 rfl
    obtain rfl : b = a := Except.ok.inj (hb.symm.trans ha)
    exact hget b r

theorem Field.fills_text {own : ρ → String} {put : String → ρ → ρ} {missing : String}
    (h : ∀ v r, own (put v r) = v) : (Field.text name own put).Fills (.text name own missing) :=
  fills_of_read rfl (fun _ _ => rfl) readText_eq_ok_iff h

theorem Field.fills_texts {own : ρ → List String} {put : List String → ρ → ρ}
    (h : ∀ v r, own (put v r) = v) : (Field.texts name own put).Fills (.texts name own) :=
  fills_of_read rfl (fun _ _ => rfl) readTexts_eq_ok_iff h

def SpellsMember (depth : Nat) (node : Key × Node) (member : String × Value) : Prop :=
  node.1 = .string (.ok member.1) ∧ node.2.Spells depth member.2

theorem spells_of_valuesOfMembers (h : valuesOfMembers depth nodes = .ok members) :
    List.Forall₂ (SpellsMember depth) nodes members := by
  induction nodes generalizing members with
  | nil =>
    obtain rfl := Except.ok.inj h
    exact .nil
  | cons node nodes ih =>
    obtain ⟨k, hk, h⟩ := bind_eq_ok_iff.1 h
    obtain ⟨v, hv, h⟩ := bind_eq_ok_iff.1 h
    obtain ⟨rest, hrest, h⟩ := bind_eq_ok_iff.1 h
    obtain rfl := Except.ok.inj h
    exact .cons ⟨Key.read_eq_ok hk, Node.spells_of_value hv⟩ (ih hrest)

theorem hasKey_iff_mem (h : List.Forall₂ (SpellsMember depth) nodes members) :
    HasKey nodes name ↔ name ∈ members.map (·.1) := by
  induction h with
  | nil => simp [HasKey]
  | @cons node member nodes members hmember hrest ih =>
    obtain ⟨key, n⟩ := node
    obtain ⟨rfl, hn⟩ := hmember
    rw [hasKey_cons, ih, List.map_cons, List.mem_cons]
    simp [eq_comm]

theorem admits_cons (hdistinct : (grammar.map (·.key)).Nodup) :
    Admits grammar ((name, v) :: rest) ↔
      (∃ slot ∈ grammar, slot.key = name ∧ ∃ a, v = slot.spell a) ∧ name ∉ rest.map (·.1) ∧
        Admits grammar rest := by
  constructor
  · intro h
    obtain ⟨hnew, honce⟩ := List.nodup_cons.1 h.once
    obtain ⟨slot, hslot, hkey⟩ := List.mem_map.1 (h.known name List.mem_cons_self)
    obtain rfl : slot.key = name := hkey
    refine ⟨⟨slot, hslot, rfl, h.spelled slot hslot v List.mem_cons_self⟩, hnew, ?_, honce, ?_⟩
    · exact fun name' hname => h.known name' (List.mem_cons_of_mem _ hname)
    · exact fun slot' hslot' v' hv => h.spelled slot' hslot' v' (List.mem_cons_of_mem _ hv)
  · rintro ⟨⟨slot, hslot, rfl, a, rfl⟩, hnew, h⟩
    refine ⟨fun name' hname => ?_, List.nodup_cons.2 ⟨hnew, h.once⟩, fun slot' hslot' v' hv => ?_⟩
    · rcases List.mem_cons.1 hname with rfl | hname
      · exact List.mem_map_of_mem hslot
      · exact h.known name' hname
    · rcases List.mem_cons.1 hv with heq | hv
      · obtain ⟨hkey, rfl⟩ := Prod.mk.inj heq
        obtain rfl : slot' = slot := List.inj_on_of_nodup_map hdistinct hslot' hslot hkey
        exact ⟨a, rfl⟩
      · exact h.spelled slot' hslot' v' hv

theorem Admits.perm (h : Admits grammar members) (hperm : members'.Perm members) :
    Admits grammar members' where
  known name hname := h.known name ((hperm.map _).mem_iff.1 hname)
  once := (hperm.map _).nodup_iff.2 h.once
  spelled slot hslot v hv := h.spelled slot hslot v (hperm.mem_iff.1 hv)

theorem Holds.perm (h : Holds grammar members r) (hperm : members'.Perm members) :
    Holds grammar members' r where
  given slot hslot a ha := h.given slot hslot a (hperm.mem_iff.1 ha)
  missing slot hslot hkey := h.missing slot hslot fun hmem => hkey ((hperm.map _).mem_iff.2 hmem)

theorem exists_fills {fields : List (Field ρ)} (h : List.Forall₂ Field.Fills fields grammar)
    (hslot : slot ∈ grammar) : ∃ f ∈ fields, f.Fills slot := by
  induction h with
  | nil => simp at hslot
  | @cons f slot' fields grammar hf _ ih =>
    rcases List.mem_cons.1 hslot with rfl | hslot
    · exact ⟨f, List.mem_cons_self, hf⟩
    · obtain ⟨f', hf', hfills⟩ := ih hslot
      exact ⟨f', List.mem_cons_of_mem f hf', hfills⟩

namespace Shape
variable {shape : Shape ρ} {seen seen' : List String} {out : List String × ρ}

namespace Follows

theorem fieldNames_eq (h : shape.Follows grammar) : shape.fieldNames = grammar.map (·.key) := by
  have hnames : List.Forall₂ (· = ·) shape.fieldNames (grammar.map (·.key)) :=
    List.forall₂_map_left_iff.2 (List.forall₂_map_right_iff.2 (h.fills.imp fun _ _ hf => hf.name))
  rwa [List.forall₂_eq_eq_eq] at hnames

theorem distinct_keys (h : shape.Follows grammar) : (grammar.map (·.key)).Nodup :=
  h.fieldNames_eq ▸ h.distinct

theorem field?_eq (h : shape.Follows grammar) (hslot : slot ∈ grammar) :
    ∃ f, f.Fills slot ∧ shape.field? slot.key = some f := by
  obtain ⟨f, hf, hfills⟩ := exists_fills h.fills hslot
  exact ⟨f, hfills, hfills.name ▸ field?_of_mem h.distinct hf⟩

theorem readMembers_step (h : shape.Follows grammar) {node : Key × Node}
    (hmember : SpellsMember depth node (name, v))
    (hread : shape.readMembers src seen r (node :: nodes) = .ok out) :
    ∃ slot ∈ grammar, ∃ put : ρ → ρ, slot.key = name ∧ (∃ a, v = slot.spell a) ∧ name ∉ seen ∧
      (∀ a, v = slot.spell a → ∀ r, slot.get (put r) = a) ∧
      shape.readMembers src (name :: seen) (put r) nodes = .ok out := by
  obtain ⟨key, n⟩ := node
  obtain ⟨rfl, hn⟩ := hmember
  obtain ⟨name', hname, hcase⟩ := readMembers_cons hread
  obtain rfl : name = name' := Except.ok.inj hname
  rcases hcase with ⟨hopen, -⟩ | ⟨f, put, hfind, hnew, hput, hrest⟩
  · simp [h.closed] at hopen
  · have hkey : name ∈ shape.fieldNames := List.mem_map.2 ⟨f, field?_eq_some hfind⟩
    rw [h.fieldNames_eq] at hkey
    obtain ⟨slot, hslot, rfl⟩ := List.mem_map.1 hkey
    obtain ⟨f', hfills, hfind'⟩ := h.field?_eq hslot
    obtain rfl : f = f' := Option.some.inj (hfind.symm.trans hfind')
    have hsets : ∀ a, v = slot.spell a → ∀ r, slot.get (put r) = a := by
      rintro a rfl
      exact hfills.sets hn hput
    exact ⟨slot, hslot, put, rfl, (hfills.reads hn).1 ⟨put, hput⟩, hnew, hsets, hrest⟩

theorem readMembers_ok_iff (h : shape.Follows grammar)
    (hmembers : List.Forall₂ (SpellsMember depth) nodes members) :
    (∃ out, shape.readMembers src seen r nodes = .ok out) ↔
      Admits grammar members ∧ ∀ name ∈ members.map (·.1), name ∉ seen := by
  induction hmembers generalizing seen r with
  | nil =>
    have hempty : Admits grammar [] := ⟨by simp, .nil, by simp⟩
    simp [readMembers, hempty]
  | @cons node member nodes rest hmember _ ih =>
    obtain ⟨name, v⟩ := member
    rw [admits_cons h.distinct_keys, List.map_cons, List.forall_mem_cons]
    constructor
    · rintro ⟨out, hread⟩
      obtain ⟨slot, hslot, put, hkey, hv, hnew, -, hrest⟩ := h.readMembers_step hmember hread
      -- the rest is read with this name seen, so no later member is under it
      obtain ⟨hadmits, hfresh⟩ := ih.1 ⟨out, hrest⟩
      refine ⟨⟨⟨slot, hslot, hkey, hv⟩, fun hmem => ?_, hadmits⟩, hnew, fun name' hname => ?_⟩
      · exact hfresh name hmem List.mem_cons_self
      · exact fun hseen => hfresh name' hname (List.mem_cons_of_mem name hseen)
    · rintro ⟨⟨⟨slot, hslot, rfl, hv⟩, honce, hadmits⟩, hnew, hfresh⟩
      obtain ⟨f, hfills, hfind⟩ := h.field?_eq hslot
      obtain ⟨key, n⟩ := node
      obtain ⟨rfl, hn⟩ := hmember
      obtain ⟨put, hput⟩ := (hfills.reads hn).2 hv
      have hfreshRest : ∀ name ∈ rest.map (·.1), name ∉ slot.key :: seen := fun name' hname =>
        List.not_mem_cons_of_ne_of_not_mem (fun heq => honce (heq ▸ hname)) (hfresh name' hname)
      obtain ⟨out, hrest⟩ := ih.2 ⟨hadmits, hfreshRest⟩
      refine ⟨out, ?_⟩
      rw [← hfills.name] at hfind hnew ⊢
      rw [readMembers_member nodes hfind hnew hput, hfills.name]
      exact hrest

theorem get_of_readMembers (h : shape.Follows grammar)
    (hmembers : List.Forall₂ (SpellsMember depth) nodes members)
    (hread : shape.readMembers src seen r nodes = .ok (seen', r')) (hslot : slot ∈ grammar)
    {a : slot.Content} (hgiven : (slot.key, slot.spell a) ∈ members) : slot.get r' = a := by
  induction hmembers generalizing seen r with
  | nil => simp at hgiven
  | @cons node member nodes rest hmember hnodes ih =>
    obtain ⟨name, v⟩ := member
    obtain ⟨slot', hslot', put, hkey, -, -, hset, hrest⟩ := h.readMembers_step hmember hread
    rcases List.mem_cons.1 hgiven with heq | hgiven
    · obtain ⟨rfl, rfl⟩ := Prod.mk.inj heq
      obtain rfl : slot' = slot := List.inj_on_of_nodup_map h.distinct_keys hslot' hslot hkey
      -- no later member is under the key, since it has been seen
      have hlater : ¬ HasKey nodes slot'.key := fun hlater =>
        ((h.readMembers_ok_iff hnodes).1 ⟨_, hrest⟩).2 _ ((hasKey_iff_mem hnodes).1 hlater)
          List.mem_cons_self
      rw [readMembers_keeps (fun f hf => h.keeps f hf slot' hslot) hlater hrest, hset a rfl]
    · exact ih hrest hgiven

theorem read_object_iff (h : shape.Follows grammar) :
    shape.read src (.object nodes) = .ok r ↔
      ∃ seen, shape.readMembers src [] shape.initial nodes = .ok (seen, r) := by
  refine ⟨readMembers_of_read, ?_⟩
  rintro ⟨seen, hread⟩
  have hgiven : shape.fields.find? (fun f => f.required && f.name ∉ seen) = none := by
    rw [List.find?_eq_none]
    intro f hf
    simp [h.optional f hf]
  rw [read]
  simp only [bind, Except.bind, hread, hgiven]
  rfl

theorem eq_of_holds (h : shape.Follows grammar) (hadmits : Admits grammar members)
    (hr : Holds grammar members r) (hr' : Holds grammar members r') : r = r' := by
  refine h.ext r r' fun slot hslot => ?_
  by_cases hkey : slot.key ∈ members.map (·.1)
  · obtain ⟨⟨name, v⟩, hmember, hname⟩ := List.mem_map.1 hkey
    obtain rfl : name = slot.key := hname
    obtain ⟨a, rfl⟩ := hadmits.spelled slot hslot v hmember
    rw [hr.given slot hslot a hmember, hr'.given slot hslot a hmember]
  · rw [hr.missing slot hslot hkey, hr'.missing slot hslot hkey]

theorem holds_of_read (h : shape.Follows grammar)
    (hmembers : List.Forall₂ (SpellsMember depth) nodes members)
    (hread : shape.read src (.object nodes) = .ok r) : Holds grammar members r where
  given slot hslot a hgiven := by
    obtain ⟨seen, hread⟩ := readMembers_of_read hread
    exact h.get_of_readMembers hmembers hread hslot hgiven
  missing slot hslot hkey := by
    have habsent : ¬ HasKey nodes slot.key := mt (hasKey_iff_mem hmembers).1 hkey
    rw [read_object_keeps (fun f hf => h.keeps f hf slot hslot) habsent hread,
      h.initial slot hslot]

theorem exists_read_iff (h : shape.Follows grammar)
    (hmembers : List.Forall₂ (SpellsMember depth) nodes members) :
    (∃ r, shape.read src (.object nodes) = .ok r) ↔ Admits grammar members := by
  have hiff : (∃ out, shape.readMembers src [] shape.initial nodes = .ok out) ↔ _ :=
    h.readMembers_ok_iff hmembers
  simp only [h.read_object_iff]
  constructor
  · rintro ⟨r, seen, hread⟩
    exact (hiff.1 ⟨_, hread⟩).1
  · intro hadmits
    obtain ⟨⟨seen, r⟩, hread⟩ := hiff.2 ⟨hadmits, fun _ _ => List.not_mem_nil⟩
    exact ⟨r, seen, hread⟩

end Follows
end Shape

theorem ReadsAs.parse_eq_read (shape : Shape ρ) (h : ReadsAs text (.object members)) :
    ∃ nodes, List.Forall₂ (SpellsMember 1) nodes members ∧
      shape.parse text = shape.read .text (.object nodes) := by
  obtain ⟨hend, hvalue⟩ := h
  generalize hroot : (Reading.ofString text).root = root at hvalue
  cases Node.spells_of_value hvalue with
  | @object nodes _ hmembers =>
    refine ⟨nodes, spells_of_valuesOfMembers hmembers, ?_⟩
    simp only [Shape.parse, hroot, hend]
    cases shape.read .text (.object nodes) <;> rfl

/-- The shape reads the text just if its members are admitted, as the one record that holds them,
and their order does not matter. -/
structure Shape.ReadsBy (shape : Shape ρ) (grammar : List (Slot ρ)) (text : String)
    (members : List (String × Value)) : Prop where
  exists_iff : (∃ r, shape.parse text = .ok r) ↔ Admits grammar members
  eq_ok_iff : ∀ r, shape.parse text = .ok r ↔ Admits grammar members ∧ Holds grammar members r
  reordered : ∀ text' members', ReadsAs text' (.object members') → members'.Perm members →
    (shape.parse text').toOption = (shape.parse text).toOption

theorem Shape.Follows.parse_eq_ok_iff {shape : Shape ρ} (h : shape.Follows grammar)
    (htext : ReadsAs text (.object members)) :
    shape.parse text = .ok r ↔ Admits grammar members ∧ Holds grammar members r := by
  obtain ⟨nodes, hmembers, hparse⟩ := htext.parse_eq_read shape
  rw [hparse]
  constructor
  · exact fun hread => ⟨(h.exists_read_iff hmembers).1 ⟨r, hread⟩, h.holds_of_read hmembers hread⟩
  · rintro ⟨hadmits, hholds⟩
    have hexists : ∃ r', shape.read .text (.object nodes) = .ok r' :=
      (h.exists_read_iff hmembers).2 hadmits
    obtain ⟨r', hread⟩ := hexists
    rwa [h.eq_of_holds hadmits hholds (h.holds_of_read hmembers hread)]

theorem Shape.Follows.readsBy {shape : Shape ρ} (h : shape.Follows grammar)
    (htext : ReadsAs text (.object members)) : shape.ReadsBy grammar text members where
  exists_iff := by
    obtain ⟨nodes, hmembers, hparse⟩ := htext.parse_eq_read shape
    rw [hparse, h.exists_read_iff hmembers]
  eq_ok_iff r := h.parse_eq_ok_iff htext
  reordered text' members' htext' hperm := by
    refine toOption_congr fun r => ?_
    rw [h.parse_eq_ok_iff htext', h.parse_eq_ok_iff htext]
    exact ⟨fun ⟨ha, hh⟩ => ⟨ha.perm hperm.symm, hh.perm hperm.symm⟩,
      fun ⟨ha, hh⟩ => ⟨ha.perm hperm, hh.perm hperm⟩⟩

end ServiceMetadata.Json
