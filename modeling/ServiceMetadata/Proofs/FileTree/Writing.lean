import ServiceMetadata.FileTree.Basic
import ServiceMetadata.Proofs.FileTree.JoinedPath

/-!
# What writing a file changes

A file can be written only where no directory is, so that every path leads after the writing where
it led before. What it leads to is the same too, unless it leads to the written file.
-/
namespace ServiceMetadata.FileTree

variable {t t' : FileTree} {place start l : Location} {path : String} {bytes : ByteArray}

theorem entry_put_self (t : FileTree) (e : Entry) (h : place ≠ []) :
    FileTree.entry? (t.put place e) place = some e := by
  simp [FileTree.entry?, put, h]

theorem lookup_filter_ne (rows : List (Location × Entry)) (h : l ≠ place) :
    List.lookup l (rows.filter (·.1 ≠ place)) = rows.lookup l := by
  induction rows with
  | nil => rfl
  | cons row rows ih =>
    obtain ⟨place', e⟩ := row
    by_cases hrow : place' = place
    · rw [List.filter_cons_of_neg (by simpa using hrow), ih, List.lookup_cons,
        beq_eq_false_iff_ne.2 (hrow ▸ h)]
    · rw [List.filter_cons_of_pos (by simpa using hrow), List.lookup_cons, List.lookup_cons, ih]

theorem entry_put_ne (t : FileTree) (e : Entry) (h : l ≠ place) :
    FileTree.entry? (t.put place e) l = t.entry? l := by
  have hlookup : (t.put place e).entries.lookup l = t.entries.lookup l := by
    rw [put, List.lookup_cons, beq_eq_false_iff_ne.2 h]
    exact lookup_filter_ne t.entries h
  rw [FileTree.entry?, FileTree.entry?, hlookup]

theorem requireDirectory_eq_ok : t.requireDirectory l = .ok () ↔ t.entry? l = some .directory := by
  unfold requireDirectory
  split <;> simp_all

def SameDirectories (t t' : FileTree) : Prop :=
  t'.current = t.current ∧ ∀ l, t'.entry? l = some .directory ↔ t.entry? l = some .directory

theorem put_sameDirectories (h : t.entry? place ≠ some .directory) :
    SameDirectories t (t.put place (.file bytes)) := by
  refine ⟨rfl, fun l => ?_⟩
  by_cases hl : l = place
  · subst hl
    have hne : l ≠ [] := fun hnil => h (by simp [FileTree.entry?, hnil])
    simp [entry_put_self t _ hne, h]
  · rw [entry_put_ne t _ hl]

theorem walk_cons_eq_ok {name : Path.Name} {rest : List Path.Name} :
    t.walk start (name :: rest) = .ok place ↔
      t.entry? start = some .directory ∧
        ∃ next, follow start name = .ok next ∧ t.walk next rest = .ok place := by
  rw [walk, ← requireDirectory_eq_ok]
  cases t.requireDirectory start with
  | error e => simp
  | ok u =>
    cases follow start name with
    | error e => simp
    | ok next => simp

theorem walk_concat_eq_ok {names : List Path.Name} {name : Path.Name} :
    t.walk start (names ++ [name]) = .ok place ↔
      ∃ parent, t.walk start names = .ok parent ∧ t.entry? parent = some .directory ∧
        follow parent name = .ok place := by
  induction names generalizing start with
  | nil =>
    rw [List.nil_append, walk_cons_eq_ok]
    simp [walk]
  | cons first names ih =>
    simp only [List.cons_append, walk_cons_eq_ok, ih]
    constructor
    · rintro ⟨hstart, next, hnext, parent, hwalk, hparent, hplace⟩
      exact ⟨parent, ⟨hstart, next, hnext, hwalk⟩, hparent, hplace⟩
    · rintro ⟨parent, ⟨hstart, next, hnext, hwalk⟩, hparent, hplace⟩
      exact ⟨hstart, next, hnext, parent, hwalk, hparent, hplace⟩

theorem SameDirectories.walk_eq_ok (h : SameDirectories t t') (names : List Path.Name) :
    t'.walk start names = .ok place ↔ t.walk start names = .ok place := by
  induction names generalizing start with
  | nil => simp [walk]
  | cons name names ih => simp only [walk_cons_eq_ok, h.2, ih]

theorem find_eq_ok {e : Entry} :
    t.find path = .ok (place, e) ↔
      checkPath path = .ok () ∧ t.walk (t.startOf path) (Path.names path) = .ok place ∧
        t.entry? place = some e ∧ (e = .directory ∨ Path.endsInSlash path = false) := by
  unfold find
  cases hcheck : checkPath path with
  | error err => simp [bind, Except.bind]
  | ok u =>
    cases hwalk : t.walk (t.startOf path) (Path.names path) with
    | error err => simp [bind, Except.bind]
    | ok place' =>
      simp only [bind, Except.bind, pure, Except.pure, throw, throwThe, MonadExceptOf.throw]
      constructor
      · intro h
        split at h
        · simp at h
        · rename_i hentry
          simp only [Except.ok.injEq, Prod.mk.injEq] at h
          obtain ⟨rfl, rfl⟩ := h
          exact ⟨trivial, rfl, hentry, .inl rfl⟩
        · rename_i hentry
          split at h
          · simp at h
          · rename_i hslash
            simp only [Except.ok.injEq, Prod.mk.injEq] at h
            obtain ⟨rfl, rfl⟩ := h
            exact ⟨trivial, rfl, hentry, .inr (by simpa using hslash)⟩
      · rintro ⟨-, hplace, hentry, hslash⟩
        obtain rfl : place' = place := by simpa using hplace
        rw [hentry]
        cases e with
        | directory => rfl
        | file bytes =>
          have hfile : Path.endsInSlash path = false := by simpa using hslash
          simp [hfile]

theorem read_eq_ok :
    t.read path = .ok bytes ↔ ∃ place, t.find path = .ok (place, .file bytes) := by
  unfold read
  split
  · rename_i h
    simp [h]
  · rename_i h
    simp [h]
  · rename_i place bytes' h
    simp [h]

theorem target_eq_ok {taken : FileError} :
    t.target taken path = .ok place ↔
      checkPath path = .ok () ∧ Path.EndsInFileName path ∧
        t.walk (t.startOf path) (Path.names path) = .ok place := by
  unfold target
  cases hcheck : checkPath path with
  | error err => simp [bind, Except.bind]
  | ok u =>
    rcases List.eq_nil_or_concat (Path.names path) with hnames | ⟨parent, name, hnames⟩
    · simp [hnames, Path.not_endsInFileName_of_nil hnames, bind, Except.bind, throw, throwThe,
        MonadExceptOf.throw]
    · rw [List.concat_eq_append] at hnames
      rw [Path.endsInFileName_iff hnames]
      simp only [hnames, walk_concat_eq_ok, List.getLast?_concat, List.dropLast_concat,
        ← requireDirectory_eq_ok, bind, Except.bind]
      cases t.walk (t.startOf path) parent with
      | error err => simp
      | ok above =>
        cases hdir : t.requireDirectory above with
        | error err => simp [hdir]
        | ok u =>
          by_cases hplain : name = Path.here ∨ name = Path.above
          · have hname : ¬(name ≠ Path.here ∧ name ≠ Path.above) :=
              fun h => hplain.elim h.1 h.2
            simp [hdir, hplain, hname, throw, throwThe, MonadExceptOf.throw]
          · rw [not_or] at hplain
            simp [hdir, hplain]

theorem write_eq_ok :
    t.write path bytes = .ok t' ↔
      checkPath path = .ok () ∧ Path.EndsInFileName path ∧ Path.endsInSlash path = false ∧
        ∃ place, t.walk (t.startOf path) (Path.names path) = .ok place ∧
          t.entry? place ≠ some .directory ∧ t' = t.put place (.file bytes) := by
  unfold write
  constructor
  · intro h
    cases htarget : t.target .isDirectory path with
    | error err => simp [htarget, bind, Except.bind] at h
    | ok place =>
      obtain ⟨hcheck, hname, hwalk⟩ := target_eq_ok.1 htarget
      simp only [htarget, bind, Except.bind, pure, Except.pure, throw, throwThe,
        MonadExceptOf.throw] at h
      split at h
      · simp at h
      · rename_i hslash
        split at h
        · simp at h
        · rename_i hentry
          exact ⟨hcheck, hname, by simpa using hslash, place, hwalk, hentry, by simpa using h.symm⟩
  · rintro ⟨hcheck, hname, hslash, place, hwalk, hentry, rfl⟩
    have htarget : t.target .isDirectory path = .ok place :=
      target_eq_ok.2 ⟨hcheck, hname, hwalk⟩
    simp only [htarget, hslash, bind, Except.bind, pure, Except.pure]
    exact if_neg Bool.false_ne_true

end ServiceMetadata.FileTree
