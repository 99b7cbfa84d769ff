import ServiceMetadata.FileTree.Path

/-!
# The names of a joined path

A path joined from a directory's path and one name leads where the directory's path leads, and from
there on to the name. Two joined paths with one directory are equal only if their names are.
-/
namespace ServiceMetadata.Path

def IsName (x : String) : Prop := x ≠ "" ∧ '/' ∉ x.toList

def IsFileName (x : String) : Prop := IsName x ∧ x.toList ≠ here ∧ x.toList ≠ above

instance (x : String) : Decidable (IsName x) := inferInstanceAs (Decidable (_ ∧ _))

instance (x : String) : Decidable (IsFileName x) := inferInstanceAs (Decidable (_ ∧ _))

def EndsInFileName (path : String) : Prop :=
  ∃ parent name, names path = parent ++ [name] ∧ name ≠ here ∧ name ≠ Path.above

theorem endsInFileName_iff {path : String} {parent : List Name} {name : Name}
    (h : names path = parent ++ [name]) :
    EndsInFileName path ↔ name ≠ here ∧ name ≠ above := by
  constructor
  · rintro ⟨parent', name', hnames, hname⟩
    obtain ⟨-, hlast⟩ := List.append_inj' (h.symm.trans hnames) rfl
    obtain rfl := List.singleton_inj.1 hlast
    exact hname
  · exact fun hname => ⟨parent, name, h, hname⟩

theorem not_endsInFileName_of_nil {path : String} (h : names path = []) :
    ¬ EndsInFileName path := by
  rintro ⟨parent, name, hnames, -⟩
  simp [h] at hnames

theorem splitSlash_ne_nil (s : List Char) : splitSlash s ≠ [] := by
  cases s with
  | nil => simp [splitSlash]
  | cons c s =>
    rw [splitSlash]
    split
    · simp
    · split <;> simp

theorem splitSlash_append_slash (s t : List Char) :
    splitSlash (s ++ '/' :: t) = splitSlash s ++ splitSlash t := by
  induction s with
  | nil => simp [splitSlash]
  | cons c s ih =>
    rw [List.cons_append, splitSlash, splitSlash, ih]
    split
    · rfl
    · cases h : splitSlash s with
      | nil => exact absurd h (splitSlash_ne_nil s)
      | cons name names => rfl

theorem splitSlash_name {s : List Char} (h : '/' ∉ s) : splitSlash s = [s] := by
  induction s with
  | nil => rfl
  | cons c s ih =>
    rw [List.mem_cons, not_or] at h
    rw [splitSlash, if_neg (Ne.symm h.1), ih h.2]

theorem splitSlash_append_name (s : List Char) {x : Name} (hx : '/' ∉ x) :
    ∃ parent last, splitSlash (s ++ x) = parent ++ [last ++ x] := by
  induction s with
  | nil => exact ⟨[], [], by simpa using splitSlash_name hx⟩
  | cons c s ih =>
    obtain ⟨parent, last, hsplit⟩ := ih
    rw [List.cons_append, splitSlash, hsplit]
    split
    · exact ⟨[] :: parent, last, rfl⟩
    · cases parent with
      | nil => exact ⟨[], c :: last, rfl⟩
      | cons name parent => exact ⟨(c :: name) :: parent, last, rfl⟩

theorem isAbsolute_name {x : String} (hx : IsName x) : isAbsolute x = false := by
  have hne : x.toList.head? ≠ some '/' := fun h => hx.2 (List.mem_of_head? h)
  simpa [isAbsolute] using hne

theorem join_absolute (above : String) {x : String} (hx : isAbsolute x = true) :
    join above x = x := by
  simp [join, hx]

theorem join_relative (above : String) {x : String} (hx : isAbsolute x = false) :
    join above x =
      if above = "" || endsInSlash above then above ++ x else above ++ "/" ++ x := by
  simp [join, hx]

theorem eq_append_slash {path : String} (h : endsInSlash path = true) :
    ∃ s, path.toList = s ++ ['/'] := by
  have hlast : path.toList.getLast? = some '/' := by simpa [endsInSlash] using h
  exact List.getLast?_eq_some_iff.1 hlast

theorem names_join_relative (above : String) {x : String} (hx : isAbsolute x = false) :
    names (join above x) = names above ++ names x := by
  rw [join_relative above hx]
  by_cases hempty : above = ""
  · subst hempty
    simp [names, splitSlash]
  by_cases hslash : endsInSlash above = true
  · obtain ⟨s, hs⟩ := eq_append_slash hslash
    have hjoined : s ++ ['/'] ++ x.toList = s ++ '/' :: x.toList := by simp
    simp [hempty, hslash, names, hs, splitSlash_append_slash, splitSlash]
  · simp [hempty, hslash, names, splitSlash_append_slash]

theorem names_name {x : String} (hx : IsName x) : names x = [x.toList] := by
  have hlist : x.toList ≠ [] := by simpa using hx.1
  simp [names, splitSlash_name hx.2, hlist]

theorem names_join (above : String) {x : String} (hx : IsName x) :
    names (join above x) = names above ++ [x.toList] := by
  rw [names_join_relative above (isAbsolute_name hx), names_name hx]

theorem isAbsolute_join (above x : String) :
    isAbsolute (join above x) = (isAbsolute x || isAbsolute above) := by
  cases hx : isAbsolute x with
  | true => simp [join_absolute above hx, hx]
  | false =>
    rw [join_relative above hx, Bool.false_or]
    by_cases hempty : above = ""
    · subst hempty
      simpa [isAbsolute] using hx
    · have hlist : above.toList ≠ [] := by simpa using hempty
      obtain ⟨c, s, hs⟩ := List.exists_cons_of_ne_nil hlist
      split <;> simp [isAbsolute, hs]

theorem endsInSlash_join (above : String) {x : String} (hx : IsName x) :
    endsInSlash (join above x) = false := by
  obtain ⟨c, hc⟩ := Option.isSome_iff_exists.1
    (List.getLast?_isSome.2 (show x.toList ≠ [] by simpa using hx.1))
  have hslash : c ≠ '/' := fun h => hx.2 (h ▸ List.mem_of_getLast? hc)
  have hlast : ∀ t : String, endsInSlash (t ++ x) = false := by
    intro t
    rw [endsInSlash, String.toList_append, List.getLast?_append, hc]
    simpa using hslash
  rw [join_relative above (isAbsolute_name hx)]
  split <;> exact hlast _

theorem join_inj (above : String) {x y : String} (hx : IsName x) (hy : IsName y)
    (h : join above x = join above y) : x = y := by
  have hnames := congrArg names h
  rw [names_join above hx, names_join above hy] at hnames
  have hlast := (List.append_inj' hnames rfl).2
  exact String.toList_inj.1 (List.singleton_inj.1 hlast)

end ServiceMetadata.Path
