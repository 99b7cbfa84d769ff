import ServiceMetadata.Json.Shape
import ServiceMetadata.Proofs.Except

/-!
# Fields that an object leaves out

Reading an object touches only the fields that its members name. What no member names is in the
record as it is in the record that is read into.
-/
namespace ServiceMetadata.Json

variable {ρ α : Type} {src : Source} {get : ρ → α} {name : String}

def HasKey (members : List (Key × Node)) (name : String) : Prop :=
  ∃ n, (Key.string (.ok name), n) ∈ members

theorem hasKey_cons {key : Key} {n : Node} {members : List (Key × Node)} :
    HasKey ((key, n) :: members) name ↔ key = .string (.ok name) ∨ HasKey members name := by
  constructor
  · rintro ⟨n', hmem⟩
    rcases List.mem_cons.1 hmem with heq | hmem
    · exact .inl (Prod.mk.inj heq).1.symm
    · exact .inr ⟨n', hmem⟩
  · rintro (rfl | ⟨n', hmem⟩)
    · exact ⟨n, List.mem_cons_self⟩
    · exact ⟨n', List.mem_cons_of_mem _ hmem⟩

theorem Key.read_eq_ok {key : Key} (h : key.read = .ok name) : key = .string (.ok name) := by
  cases key with
  | string s => rw [show s = .ok name from h]
  | fault f => simp [Key.read] at h

theorem spelled_eq_ok {x : Except SyntaxError α} {a : α} (h : spelled x = .ok a) : x = .ok a := by
  cases x with
  | ok b => rw [Except.ok.inj h]
  | error e => simp [spelled] at h

@[simp] theorem Field.name_text {own : ρ → String} {put : String → ρ → ρ} :
    (Field.text name own put).name = name := rfl

@[simp] theorem Field.name_texts {own : ρ → List String} {put : List String → ρ → ρ} :
    (Field.texts name own put).name = name := rfl

/-- Reading the field leaves this much of a record as it was. -/
def Field.Keeps (f : Field ρ) (get : ρ → α) : Prop :=
  ∀ src n put r, f.read src n = .ok put → get (put r) = get r

theorem Field.keeps_text {own : ρ → String} {put : String → ρ → ρ}
    (h : ∀ v r, get (put v r) = get r) : (Field.text name own put).Keeps get := by
  intro src n put' r hread
  obtain ⟨v, -, rfl⟩ := map_eq_ok_iff.1 hread
  exact h v r

theorem Field.keeps_texts {own : ρ → List String} {put : List String → ρ → ρ}
    (h : ∀ v r, get (put v r) = get r) : (Field.texts name own put).Keeps get := by
  intro src n put' r hread
  obtain ⟨v, -, rfl⟩ := map_eq_ok_iff.1 hread
  exact h v r

namespace Shape
variable {shape : Shape ρ} {r r' : ρ} {seen seen' : List String}

theorem field?_eq_some {f : Field ρ} (h : shape.field? name = some f) :
    f ∈ shape.fields ∧ f.name = name :=
  ⟨List.mem_of_find?_eq_some h, by simpa using List.find?_some h⟩

theorem readMembers_cons {key : Key} {n : Node} {rest : List (Key × Node)}
    (h : shape.readMembers src seen r ((key, n) :: rest) = .ok (seen', r')) :
    ∃ name, key.read = .ok name ∧
      (shape.closed = false ∧ shape.field? name = none ∧
          shape.readMembers src seen r rest = .ok (seen', r') ∨
        ∃ f put, shape.field? name = some f ∧ name ∉ seen ∧ f.read src n = .ok put ∧
          shape.readMembers src (name :: seen) (put r) rest = .ok (seen', r')) := by
  rw [readMembers] at h
  obtain ⟨name, hname, h⟩ := bind_eq_ok_iff.1 h
  refine ⟨name, spelled_eq_ok hname, ?_⟩
  split at h
  · rename_i hnone
    dsimp only at h
    split at h
    · simp [throw, throwThe, MonadExceptOf.throw, bind, Except.bind] at h
    · rename_i hopen
      obtain ⟨-, -, h⟩ := bind_eq_ok_iff.1 h
      exact .inl ⟨by simpa using hopen, hnone, h⟩
  · rename_i f hsome
    dsimp only at h
    split at h
    · simp [throw, throwThe, MonadExceptOf.throw, bind, Except.bind] at h
    · rename_i hnew
      obtain ⟨put, hput, h⟩ := bind_eq_ok_iff.1 h
      exact .inr ⟨f, put, hsome, hnew, hput, h⟩

theorem readMembers_keeps {members : List (Key × Node)}
    (hkeeps : ∀ f ∈ shape.fields, f.name ≠ name → f.Keeps get) (habsent : ¬ HasKey members name)
    (h : shape.readMembers src seen r members = .ok (seen', r')) : get r' = get r := by
  induction members generalizing seen r with
  | nil => rw [(Prod.mk.inj (Except.ok.inj h)).2]
  | cons member rest ih =>
    obtain ⟨key, n⟩ := member
    rw [hasKey_cons, not_or] at habsent
    obtain ⟨hkey, hrest⟩ := habsent
    obtain ⟨keyName, hread, hunknown | ⟨f, put, hf, -, hput, h⟩⟩ := readMembers_cons h
    · exact ih hrest hunknown.2.2
    · obtain ⟨hfield, hname⟩ := field?_eq_some hf
      have hother : f.name ≠ name := by
        rintro rfl
        exact hkey (by rw [hname, Key.read_eq_ok hread])
      rw [ih hrest h, hkeeps f hfield hother src n put r hput]

theorem readMembers_of_read {members : List (Key × Node)}
    (h : shape.read src (.object members) = .ok r) :
    ∃ seen, shape.readMembers src [] shape.initial members = .ok (seen, r) := by
  obtain ⟨⟨seen, r'⟩, hread, h⟩ := bind_eq_ok_iff.1 h
  dsimp only at h
  split at h
  · simp [throw, throwThe, MonadExceptOf.throw] at h
  · obtain rfl := Except.ok.inj h
    exact ⟨seen, hread⟩

theorem read_object_keeps {members : List (Key × Node)}
    (hkeeps : ∀ f ∈ shape.fields, f.name ≠ name → f.Keeps get) (habsent : ¬ HasKey members name)
    (h : shape.read src (.object members) = .ok r) : get r = get shape.initial := by
  obtain ⟨seen, hread⟩ := readMembers_of_read h
  exact readMembers_keeps hkeeps habsent hread

end Shape
end ServiceMetadata.Json
