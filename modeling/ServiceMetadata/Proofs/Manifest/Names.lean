import Mathlib.Data.List.Nodup
import ServiceMetadata.Manifest.Inheritance

/-!
# Names in a manifest

Declarations offend in two ways: with a blank name, or with the name of an earlier declaration. A
manifest is checked up to its first offender, which is what the error is about, and it is accepted
just if there is none. Elements are named as their classes are.
-/
namespace ServiceMetadata

variable {classes before rest : List ClassDecl} {d d' : ClassDecl} {i : Nat} {seen : List String}

namespace ClassDecl

def HasBlankName (d : ClassDecl) : Prop := ∀ c ∈ d.name.toList, Text.isWhiteSpace c = true

theorem isBlank_name_iff (d : ClassDecl) :
    Text.isBlank d.name.toList = true ↔ d.HasBlankName := by
  rw [Text.isBlank, List.all_eq_true, HasBlankName]

instance (d : ClassDecl) : Decidable d.HasBlankName := decidable_of_iff _ d.isBlank_name_iff

def nameError (d : ClassDecl) : ManifestError :=
  if d.HasBlankName then .blankName else .repeatedName d.name

end ClassDecl

structure Manifest.WellNamed (m : Manifest) : Prop where
  named : ∀ d ∈ m.classes, ∃ c ∈ d.name.toList, Text.isWhiteSpace c = false
  distinct : (m.classes.map (·.name)).Nodup

/-- The name of declaration `i` is blank or that of an earlier declaration. -/
def Offends (classes : List ClassDecl) (i : Nat) : Prop :=
  ∃ d ∈ classes[i]?, d.HasBlankName ∨ d.name ∈ (classes.take i).map (·.name)

instance (classes : List ClassDecl) (i : Nat) : Decidable (Offends classes i) :=
  inferInstanceAs (Decidable (∃ d ∈ classes[i]?,
    d.HasBlankName ∨ d.name ∈ (classes.take i).map (·.name)))

structure FirstOffender (classes : List ClassDecl) (i : Nat) (d : ClassDecl) : Prop where
  declared : classes[i]? = some d
  offends : Offends classes i
  first : ∀ j < i, ¬ Offends classes j

theorem FirstOffender.unique {j : Nat} (h : FirstOffender classes i d)
    (h' : FirstOffender classes j d') : d = d' := by
  have hij : i = j := by
    rcases Nat.lt_trichotomy i j with hlt | heq | hgt
    · exact absurd h.offends (h'.first i hlt)
    · exact heq
    · exact absurd h'.offends (h.first j hgt)
  exact Option.some.inj (h.declared.symm.trans (hij ▸ h'.declared))

theorem Offends.lt_length (h : Offends classes i) : i < classes.length := by
  obtain ⟨d, hd, -⟩ := h
  exact (List.getElem?_eq_some_iff.1 hd).1

theorem offends_append (hi : i < before.length) :
    Offends (before ++ rest) i ↔ Offends before i := by
  rw [Offends, Offends, List.getElem?_append_left hi,
    List.take_append_of_le_length (Nat.le_of_lt hi)]

theorem offends_at_length :
    Offends (before ++ d :: rest) before.length ↔
      d.HasBlankName ∨ d.name ∈ before.map (·.name) := by
  simp [Offends]

theorem Manifest.wellNamed_iff (m : Manifest) : m.WellNamed ↔ ∀ i, ¬ Offends m.classes i := by
  constructor
  · rintro ⟨hnamed, hdistinct⟩ i ⟨d, hd, hblank | hmem⟩
    · obtain ⟨c, hc, hspace⟩ := hnamed d (List.mem_of_getElem? hd)
      simp [hblank c hc] at hspace
    · obtain ⟨hi, rfl⟩ := List.getElem?_eq_some_iff.1 hd
      have hsplit : m.classes.take i ++ m.classes[i] :: m.classes.drop (i + 1) = m.classes := by
        rw [← List.drop_eq_getElem_cons hi, List.take_append_drop]
      rw [← hsplit, List.map_append, List.nodup_append] at hdistinct
      exact hdistinct.2.2 _ hmem _ (List.mem_map_of_mem List.mem_cons_self) rfl
  · intro hnone
    refine ⟨fun d hd => ?_, List.nodup_iff_getElem?_ne_getElem?.2 fun j i hj hi heq => ?_⟩
    · obtain ⟨i, hi⟩ := List.mem_iff_getElem?.1 hd
      by_contra hblank
      push Not at hblank
      exact hnone i ⟨d, hi, .inl fun c hc => by simpa using hblank c hc⟩
    · rw [List.length_map] at hi
      have hj' : j < m.classes.length := Nat.lt_trans hj hi
      have hname : m.classes[j].name = m.classes[i].name := by simpa [hi, hj'] using heq
      refine hnone i ⟨m.classes[i], List.getElem?_eq_getElem hi, .inr ?_⟩
      rw [← hname]
      exact List.mem_map_of_mem (List.mem_take_iff_getElem.2 ⟨j, by omega, rfl⟩)

inductive Checked (classes : List ClassDecl) : Except ManifestError Unit → Prop
  | passed (h : ∀ i, ¬ Offends classes i) : Checked classes (.ok ())
  | stopped {i : Nat} {d : ClassDecl} (h : FirstOffender classes i d) :
    Checked classes (.error d.nameError)

theorem checked_checkNames (hbefore : ∀ i, ¬ Offends before i)
    (hseen : ∀ name, name ∈ seen ↔ name ∈ before.map (·.name)) :
    Checked (before ++ rest) (checkNames seen rest) := by
  induction rest generalizing before seen with
  | nil =>
    rw [List.append_nil]
    exact .passed hbefore
  | cons d rest ih =>
    have hearlier : ∀ j < before.length, ¬ Offends (before ++ d :: rest) j := fun j hj =>
      (offends_append hj).not.2 (hbefore j)
    have hfirst : d.HasBlankName ∨ d.name ∈ before.map (·.name) →
        FirstOffender (before ++ d :: rest) before.length d := fun hname =>
      ⟨by simp, offends_at_length.2 hname, hearlier⟩
    rw [checkNames]
    split
    · rename_i hblank
      have hblank := d.isBlank_name_iff.1 hblank
      have herror : d.nameError = .blankName := if_pos hblank
      exact herror ▸ .stopped (hfirst (.inl hblank))
    rename_i hblank
    have hblank : ¬ d.HasBlankName := d.isBlank_name_iff.not.1 hblank
    split
    · rename_i hknown
      have herror : d.nameError = .repeatedName d.name := if_neg hblank
      exact herror ▸ .stopped (hfirst (.inr ((hseen d.name).1 hknown)))
    · rename_i hnew
      rw [List.append_cons]
      refine ih (fun i h => ?_) (fun name => by simp [hseen, or_comm])
      have hi : i < before.length + 1 := by simpa using h.lt_length
      rcases Nat.lt_succ_iff_lt_or_eq.1 hi with hi | rfl
      · exact hbefore i ((offends_append hi).1 h)
      · rw [offends_at_length, ← hseen] at h
        exact h.elim hblank hnew

theorem Checked.eq_ok_iff {answer : Except ManifestError Unit} (h : Checked classes answer) :
    answer = .ok () ↔ ∀ i, ¬ Offends classes i := by
  cases h with
  | passed hnone => exact iff_of_true rfl hnone
  | stopped hfirst => exact iff_of_false (by simp) fun hnone => hnone _ hfirst.offends

theorem Checked.exists_first {answer : Except ManifestError Unit} (h : Checked classes answer)
    (hwrong : answer ≠ .ok ()) : ∃ i d, FirstOffender classes i d ∧ answer = .error d.nameError := by
  cases h with
  | passed => exact absurd rfl hwrong
  | stopped hfirst => exact ⟨_, _, hfirst, rfl⟩

theorem Manifest.checked_check (m : Manifest) : Checked m.classes m.check := by
  have hnone : ∀ i, ¬ Offends [] i := fun i h => by simpa using h.lt_length
  exact checked_checkNames hnone (by simp)

theorem Manifest.check_eq_ok_iff (m : Manifest) : m.check = .ok () ↔ m.WellNamed :=
  m.checked_check.eq_ok_iff.trans m.wellNamed_iff.symm

theorem parse_eq_ok_iff {text : String} {m : Manifest} :
    Manifest.parse text = .ok m ↔ Manifest.shape.parse text = .ok m ∧ m.WellNamed := by
  rw [← m.check_eq_ok_iff, Manifest.parse]
  cases Manifest.shape.parse text with
  | error e => simp
  | ok m' =>
    constructor
    · intro h
      dsimp only at h
      split at h
      · simp at h
      · rename_i hcheck
        obtain rfl : m' = m := Except.ok.inj h
        exact ⟨rfl, hcheck⟩
    · rintro ⟨heq, hcheck⟩
      obtain rfl : m' = m := Except.ok.inj heq
      simp only [hcheck]

theorem parse_distinct {text : String} {m : Manifest} (h : Manifest.parse text = .ok m) :
    (m.classes.map (·.name)).Nodup :=
  (parse_eq_ok_iff.1 h).2.distinct

theorem map_name_elements (m : Manifest) :
    m.elements.map (·.name) = m.classes.map (·.name) := by
  rw [Manifest.elements, List.map_map]
  rfl

end ServiceMetadata
