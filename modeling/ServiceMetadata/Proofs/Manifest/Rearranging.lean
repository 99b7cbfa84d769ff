import Mathlib.Data.List.FinRange
import Mathlib.Data.List.InsertIdx
import Mathlib.Data.List.OfFn
import ServiceMetadata.Proofs.Manifest.RoundTrip
import ServiceMetadata.Proofs.Manifest.Superclasses

/-!
# What inheritance does not depend on

What a class inherits is settled by the sequence of its superclasses, and that does not change when
the classes are declared in another order, when each is given the records that it inherits anyway,
or when a class is added that none of them extends.
-/
namespace ServiceMetadata

variable {α : Type} {pick : ClassDecl → Option α} {m m' : Manifest} {c d s : ClassDecl} {i k : Nat}
  {classes classes' : List ClassDecl} {name : String}

theorem Inherits.unique {record record' : Option α} (h : m.Inherits pick d record)
    (h' : m.Inherits pick d record') : record = record' := by
  ext r
  rw [h.1, h'.1]

theorem inherited_congr (habove : ∀ k, m'.above? d k = m.above? d k) :
    inherited pick m'.classes d = inherited pick m.classes d := by
  have hinherits := inherits_inherited m' pick d
  simp only [Manifest.Inherits, Manifest.IsNearest, habove] at hinherits
  exact Inherits.unique hinherits (inherits_inherited m pick d)

theorem above?_congr {p : ClassDecl → Prop} (hd : p d)
    (hsame : ∀ c, p c → m'.superclass? c = m.superclass? c)
    (hclosed : ∀ c s, p c → m.superclass? c = some s → p s) :
    m'.above? d k = m.above? d k := by
  induction k generalizing d with
  | zero => rfl
  | succ k ih =>
    rw [above?_succ, above?_succ, hsame d hd]
    cases hs : m.superclass? d with
    | none => rfl
    | some s => exact ih (hclosed d s hd hs)

theorem above?_add (h : m.above? d k = some s) (j : Nat) : m.above? d (k + j) = m.above? s j := by
  induction j with
  | zero => exact h
  | succ j ih => rw [← Nat.add_assoc, Manifest.above?, ih, Manifest.above?]

namespace Manifest

def element (m : Manifest) (d : ClassDecl) : Element where
  name := d.name
  kind := d.kind
  isAbstract := d.isAbstract
  common := inherited (·.common) m.classes d
  service := inherited (·.service) m.classes d
  dataSource := inherited (·.dataSource) m.classes d

theorem elements_eq_map (m : Manifest) : m.elements = m.classes.map m.element := rfl

theorem element_congr (habove : ∀ k, m'.above? d k = m.above? d k) :
    m'.element d = m.element d := by
  rw [element, inherited_congr habove, inherited_congr habove, inherited_congr habove]
  rfl

def rearranged (m : Manifest) (order : Equiv.Perm (Fin m.classes.length)) : Manifest where
  classes := List.ofFn fun i => m.classes[order i]

def effective (m : Manifest) (d : ClassDecl) : ClassDecl :=
  { d with
    common := inherited (·.common) m.classes d
    service := inherited (·.service) m.classes d
    dataSource := inherited (·.dataSource) m.classes d }

def flattened (m : Manifest) : Manifest where
  classes := m.classes.map m.effective

def adding (m : Manifest) (i : Nat) (c : ClassDecl) : Manifest where
  classes := m.classes.insertIdx i c

/-- No class has the name of `c` or extends it. -/
structure Unrelated (m : Manifest) (c : ClassDecl) : Prop where
  name : ∀ d ∈ m.classes, d.name ≠ c.name
  superclass : ∀ d ∈ m.classes, d.extends? ≠ some c.name

end Manifest

theorem findClass_eq_some_iff (h : (classes.map (·.name)).Nodup) :
    findClass classes name = some d ↔ d ∈ classes ∧ d.name = name := by
  rw [findClass]
  constructor
  · intro hd
    exact ⟨List.mem_reverse.1 (List.mem_of_find?_eq_some hd), by simpa using List.find?_some hd⟩
  · rintro ⟨hmem, rfl⟩
    have hsome : (classes.reverse.find? (·.name = d.name)).isSome := by
      rw [List.find?_isSome]
      exact ⟨d, List.mem_reverse.2 hmem, by simp⟩
    obtain ⟨d', hd'⟩ := Option.isSome_iff_exists.1 hsome
    have hmem' : d' ∈ classes := List.mem_reverse.1 (List.mem_of_find?_eq_some hd')
    have hname : d'.name = d.name := by simpa using List.find?_some hd'
    rw [hd', List.inj_on_of_nodup_map h hmem' hmem hname]

theorem findClass_perm (h : (classes.map (·.name)).Nodup) (hperm : classes'.Perm classes)
    (name : String) : findClass classes' name = findClass classes name := by
  ext d
  rw [findClass_eq_some_iff h, findClass_eq_some_iff ((hperm.map _).nodup_iff.2 h), hperm.mem_iff]

theorem superclass?_congr (h : ∀ name, d.extends? = some name →
    findClass m'.classes name = findClass m.classes name) : m'.superclass? d = m.superclass? d := by
  cases hext : d.extends? with
  | none => rw [superclass?_of_root hext, superclass?_of_root hext]
  | some name => rw [superclass?_of_extends hext, superclass?_of_extends hext, h name hext]

namespace Manifest

theorem rearranged_perm (m : Manifest) (order : Equiv.Perm (Fin m.classes.length)) :
    (m.rearranged order).classes.Perm m.classes := by
  have hperm := Equiv.Perm.ofFn_comp_perm order fun i : Fin m.classes.length => m.classes[i]
  have hall : (List.ofFn fun i : Fin m.classes.length => m.classes[i]) = m.classes :=
    List.ofFn_getElem
  rwa [hall] at hperm

theorem WellNamed.perm (h : m.WellNamed) (hperm : m'.classes.Perm m.classes) : m'.WellNamed where
  named d hd := h.named d (hperm.mem_iff.1 hd)
  distinct := (hperm.map _).nodup_iff.2 h.distinct

theorem element_rearranged (h : m.WellNamed) (order : Equiv.Perm (Fin m.classes.length))
    (d : ClassDecl) : (m.rearranged order).element d = m.element d := by
  have hfind : ∀ name, findClass (m.rearranged order).classes name = findClass m.classes name :=
    findClass_perm h.distinct (m.rearranged_perm order)
  exact element_congr fun _ => above?_congr (p := fun _ => True) trivial
    (fun _ _ => superclass?_congr fun name _ => hfind name) fun _ _ _ _ => trivial

theorem elements_rearranged (h : m.WellNamed) (order : Equiv.Perm (Fin m.classes.length))
    (i : Fin m.classes.length) :
    (m.rearranged order).elements[i.val]? = m.elements[(order i).val]? := by
  have hclass : (m.rearranged order).classes[i.val]? = m.classes[(order i).val]? := by
    simp [rearranged]
  rw [elements_eq_map, elements_eq_map, List.getElem?_map, List.getElem?_map, hclass,
    funext (element_rearranged h order)]

theorem length_rearranged (m : Manifest) (order : Equiv.Perm (Fin m.classes.length)) :
    (m.rearranged order).elements.length = m.elements.length := by
  simp [elements_eq_map, rearranged]

theorem superclass?_map {f : ClassDecl → ClassDecl} (hname : ∀ c, (f c).name = c.name)
    (hext : ∀ c, (f c).extends? = c.extends?) (c : ClassDecl) :
    (Manifest.mk (m.classes.map f)).superclass? (f c) = (m.superclass? c).map f := by
  cases hsuper : c.extends? with
  | none =>
    rw [superclass?_of_root hsuper, superclass?_of_root ((hext c).trans hsuper), Option.map_none]
  | some name =>
    rw [superclass?_of_extends hsuper, superclass?_of_extends ((hext c).trans hsuper),
      findClass_map hname]

theorem above?_map {f : ClassDecl → ClassDecl} (hname : ∀ c, (f c).name = c.name)
    (hext : ∀ c, (f c).extends? = c.extends?) (d : ClassDecl) (k : Nat) :
    (Manifest.mk (m.classes.map f)).above? (f d) k = (m.above? d k).map f := by
  induction k with
  | zero => rfl
  | succ k ih =>
    rw [above?, ih, above?]
    cases m.above? d k with
    | none => rfl
    | some c => exact superclass?_map hname hext c

theorem inherited_flattened (hpick : ∀ c, pick (m.effective c) = inherited pick m.classes c)
    (d : ClassDecl) :
    inherited pick m.flattened.classes (m.effective d) = inherited pick m.classes d := by
  cases hd : inherited pick m.classes d with
  | some r => exact inherited_own ((hpick d).trans hd) _
  | none =>
    have hbare := (inherits_inherited m pick d).2.1 hd
    rw [(inherits_inherited m.flattened pick _).2]
    intro k c hc
    rw [flattened, above?_map (f := m.effective) (fun _ => rfl) fun _ => rfl] at hc
    obtain ⟨s, hs, rfl⟩ := Option.map_eq_some_iff.1 hc
    rw [hpick, (inherits_inherited m pick s).2]
    intro j c' hc'
    exact hbare (k + j) c' ((above?_add hs j).trans hc')

theorem element_effective (m : Manifest) (d : ClassDecl) :
    m.flattened.element (m.effective d) = m.element d := by
  have hcommon : inherited (·.common) m.flattened.classes (m.effective d) =
      inherited (·.common) m.classes d := inherited_flattened (fun _ => rfl) d
  have hservice : inherited (·.service) m.flattened.classes (m.effective d) =
      inherited (·.service) m.classes d := inherited_flattened (fun _ => rfl) d
  have hdataSource : inherited (·.dataSource) m.flattened.classes (m.effective d) =
      inherited (·.dataSource) m.classes d := inherited_flattened (fun _ => rfl) d
  rw [element, hcommon, hservice, hdataSource]
  rfl

theorem elements_flattened (m : Manifest) : m.flattened.elements = m.elements := by
  rw [elements_eq_map, elements_eq_map, ← funext m.element_effective]
  exact List.map_map

theorem filter_insertIdx {p : ClassDecl → Bool} (h : p c = false) (i : Nat)
    (classes : List ClassDecl) : (classes.insertIdx i c).filter p = classes.filter p := by
  induction classes generalizing i with
  | nil => cases i <;> simp [h]
  | cons d classes ih => cases i <;> simp [List.filter_cons, h, ih]

theorem findClass_adding (h : c.name ≠ name) (i : Nat) :
    findClass (m.adding i c).classes name = findClass m.classes name := by
  rw [findClass_eq_getLast?, findClass_eq_getLast?, adding, filter_insertIdx (by simpa using h)]

theorem mem_of_superclass? (h : m.superclass? d = some s) : s ∈ m.classes := by
  obtain ⟨name, -, hs⟩ := Option.bind_eq_some_iff.1 h
  exact (List.mem_filter.1 (List.mem_of_getLast? hs)).1

theorem Unrelated.element_adding (h : m.Unrelated c) (i : Nat) (hd : d ∈ m.classes) :
    (m.adding i c).element d = m.element d := by
  refine element_congr fun _ => above?_congr (p := (· ∈ m.classes)) hd (fun b hb => ?_)
    fun _ _ _ hs => mem_of_superclass? hs
  refine superclass?_congr fun name hname => findClass_adding (fun heq => ?_) i
  exact h.superclass b hb (heq ▸ hname)

theorem Unrelated.elements_adding (h : m.Unrelated c) (i : Nat) :
    (m.adding i c).elements = m.elements.insertIdx i ((m.adding i c).element c) := by
  have hothers : m.classes.map (m.adding i c).element = m.elements :=
    List.map_congr_left fun d hd => h.element_adding i hd
  rw [← hothers, ← List.map_insertIdx]
  rfl

/-- A manifest that is accepted is accepted in any order of its classes, and its elements come in
the same order. The elements say of every class what it inherits, so they are those of the classes
that have it as their own. A class that no other has to do with changes the elements of none. -/
theorem elements_depend_on_superclasses (m : Manifest) :
    (∀ text, parse text = .ok m → ∀ order : Equiv.Perm (Fin m.classes.length),
      parse (shape.print (m.rearranged order)) = .ok (m.rearranged order) ∧
      (∀ text', shape.parse text' = .ok (m.rearranged order) →
        parse text' = .ok (m.rearranged order)) ∧
      (m.rearranged order).elements.length = m.elements.length ∧
      ∀ i : Fin m.classes.length,
        (m.rearranged order).elements[i.val]? = m.elements[(order i).val]?) ∧
    m.flattened.elements = m.elements ∧
    ∀ c, m.Unrelated c → ∀ i ≤ m.classes.length, ∃ e, e.name = c.name ∧
      (m.adding i c).elements = m.elements.insertIdx i e := by
  refine ⟨fun text htext order => ?_, m.elements_flattened, fun c hc i _ => ?_⟩
  · have hnamed : m.WellNamed := (parse_eq_ok_iff.1 htext).2
    have hnamed' : (m.rearranged order).WellNamed := hnamed.perm (m.rearranged_perm order)
    exact ⟨parse_print_of_wellNamed hnamed', fun _ htext' => parse_eq_ok_iff.2 ⟨htext', hnamed'⟩,
      m.length_rearranged order, elements_rearranged hnamed order⟩
  · exact ⟨_, rfl, hc.elements_adding i⟩

def aroundCycle : Manifest where
  classes := [{ name := "a.C", extends? := some "a.B" }, { name := "a.A", extends? := some "a.B" },
    { name := "a.B", extends? := some "a.A", service := some { license := "mit" } },
    { name := "a.D", extends? := some "java.lang.Object" }]

def lastFirst : Equiv.Perm (Fin aroundCycle.classes.length) :=
  Equiv.swap ⟨0, by decide⟩ ⟨2, by decide⟩

theorem elements_depend_on_superclasses_around_cycle :
    parse (shape.print aroundCycle) = .ok aroundCycle ∧
      (aroundCycle.rearranged lastFirst).elements[2]? = some
        { name := "a.C", service := some { license := "mit" } } ∧
      aroundCycle.flattened.elements = aroundCycle.elements ∧
      ∃ e, e.name = "a.E" ∧
        (aroundCycle.adding 1 { name := "a.E", extends? := some "a.A" }).elements =
          aroundCycle.elements.insertIdx 1 e := by
  have hread : parse (shape.print aroundCycle) = .ok aroundCycle :=
    parse_print_of_wellNamed (aroundCycle.check_eq_ok_iff.1 rfl)
  have hfirst : aroundCycle.elements[0]? =
      some { name := "a.C", service := some { license := "mit" } } := by decide +kernel
  have hunrelated : aroundCycle.Unrelated { name := "a.E", extends? := some "a.A" } :=
    ⟨by decide, by decide⟩
  obtain ⟨horder, hflat, hadding⟩ := aroundCycle.elements_depend_on_superclasses
  obtain ⟨-, -, -, hplaces⟩ := horder _ hread lastFirst
  exact ⟨hread, (hplaces ⟨2, by decide⟩).trans hfirst, hflat, hadding _ hunrelated 1 (by decide)⟩

end Manifest
end ServiceMetadata
