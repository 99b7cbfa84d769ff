import ServiceMetadata.Proofs.Except
import ServiceMetadata.Proofs.FileTree.Writing

/-!
# The place that a path leads to

As there are no links, the names of a path alone say where it leads, whatever stands on the way: if
it can be followed at all, it ends at that place. A path laid below a directory stays below it unless
it is absolute or climbs out.
-/
namespace ServiceMetadata

namespace Path

def step (place : Location) (name : Name) : Location :=
  if name = here then place else if name = above then place.dropLast else place ++ [name]

def lead (place : Location) (names : List Name) : Location := names.foldl step place

@[simp] theorem lead_nil (place : Location) : lead place [] = place := rfl

@[simp] theorem lead_cons (place : Location) (name : Name) (names : List Name) :
    lead place (name :: names) = lead (step place name) names := rfl

theorem lead_append (place : Location) (names names' : List Name) :
    lead place (names ++ names') = lead (lead place names) names' :=
  List.foldl_append

theorem lead_concat {name : Name} (place : Location) (names : List Name) (hhere : name ≠ here)
    (habove : name ≠ above) : lead place (names ++ [name]) = lead place names ++ [name] := by
  rw [lead_append, lead_cons, lead_nil, step, if_neg hhere, if_neg habove]

/-- Whether names that lead on from a directory never leave it, when `depth` names have led down
from it already. -/
def staysBelow : Nat → List Name → Bool
  | _, [] => true
  | depth, name :: rest =>
    if name = here then staysBelow depth rest
    else if name = above then 0 < depth && staysBelow (depth - 1) rest
    else staysBelow (depth + 1) rest

theorem lead_of_staysBelow {names : List Name} (root inside : Location)
    (h : staysBelow inside.length names = true) :
    lead (root ++ inside) names = root ++ lead inside names := by
  induction names generalizing inside with
  | nil => rfl
  | cons name names ih =>
    by_cases hhere : name = here
    · simp only [staysBelow, lead_cons, step, if_pos hhere] at h ⊢
      exact ih inside h
    by_cases habove : name = above
    · simp only [staysBelow, lead_cons, step, if_neg hhere, if_pos habove, Bool.and_eq_true,
        decide_eq_true_iff] at h ⊢
      have hne : inside ≠ [] := List.ne_nil_of_length_pos h.1
      rw [List.dropLast_append_of_ne_nil hne]
      exact ih inside.dropLast (by rw [List.length_dropLast]; exact h.2)
    · simp only [staysBelow, lead_cons, step, if_neg hhere, if_neg habove] at h ⊢
      rw [List.append_assoc]
      exact ih (inside ++ [name]) (by rw [List.length_append]; exact h)

def Descends (path : String) : Prop :=
  isAbsolute path = false ∧ staysBelow 0 (names path) = true

instance (path : String) : Decidable (Descends path) := inferInstanceAs (Decidable (_ ∧ _))

end Path

def IsBelow (root l : Location) : Prop := root <+: l ∧ l ≠ root

instance (root l : Location) : Decidable (IsBelow root l) := inferInstanceAs (Decidable (_ ∧ _))

theorem isBelow_append (root : Location) {inside : Location} (h : inside ≠ []) :
    IsBelow root (root ++ inside) :=
  ⟨List.prefix_append _ _, by simpa using h⟩

namespace FileTree

variable {t t' : FileTree} {place start l : Location} {path : String} {bytes : ByteArray}

/-- Where a path leads if nothing is in the way. -/
def placeOf (t : FileTree) (path : String) : Location :=
  Path.lead (t.startOf path) (Path.names path)

theorem startOf_congr (h : t'.current = t.current) (path : String) :
    t'.startOf path = t.startOf path := by
  rw [startOf, startOf, h]

theorem placeOf_congr (h : t'.current = t.current) (path : String) :
    t'.placeOf path = t.placeOf path := by
  rw [placeOf, placeOf, startOf_congr h]

theorem follow_eq_step {name : Path.Name} (h : follow start name = .ok place) :
    place = Path.step start name := by
  rw [follow] at h
  rw [Path.step]
  split at h
  · rw [if_pos ‹_›, Except.ok.inj h]
  rw [if_neg ‹_›]
  split at h
  · rw [if_pos ‹_›, Except.ok.inj h]
  rw [if_neg ‹_›]
  split at h
  · simp at h
  · exact (Except.ok.inj h).symm

theorem walk_eq_lead {names : List Path.Name} (h : t.walk start names = .ok place) :
    place = Path.lead start names := by
  induction names generalizing start with
  | nil => exact (Except.ok.inj h).symm
  | cons name names ih =>
    obtain ⟨-, next, hnext, hwalk⟩ := walk_cons_eq_ok.1 h
    rw [Path.lead_cons, ← follow_eq_step hnext]
    exact ih hwalk

theorem target_eq_placeOf {taken : FileError} (h : t.target taken path = .ok place) :
    place = t.placeOf path :=
  walk_eq_lead (target_eq_ok.1 h).2.2

theorem placeOf_join (t : FileTree) (above x : String) :
    t.placeOf (Path.join above x) =
      if Path.isAbsolute x then Path.lead [] (Path.names x)
      else Path.lead (t.placeOf above) (Path.names x) := by
  rw [placeOf, startOf, Path.isAbsolute_join]
  cases hx : Path.isAbsolute x with
  | true => simp [Path.join_absolute above hx]
  | false => simp [Path.names_join_relative above hx, Path.lead_append, placeOf, startOf]

theorem placeOf_join_name (t : FileTree) (above : String) {x : String} (hx : Path.IsFileName x) :
    t.placeOf (Path.join above x) = t.placeOf above ++ [x.toList] := by
  rw [placeOf_join, Path.isAbsolute_name hx.1, if_neg Bool.false_ne_true, Path.names_name hx.1]
  exact Path.lead_concat _ [] hx.2.1 hx.2.2

theorem isBelow_placeOf_join (t : FileTree) (above : String) {x : String} (hx : Path.Descends x)
    (hname : Path.EndsInFileName x) :
    IsBelow (t.placeOf above) (t.placeOf (Path.join above x)) := by
  obtain ⟨hrelative, hstays⟩ := hx
  have hlead : Path.lead (t.placeOf above) (Path.names x) =
      t.placeOf above ++ Path.lead [] (Path.names x) := by
    simpa using Path.lead_of_staysBelow (t.placeOf above) [] hstays
  rw [placeOf_join, hrelative, if_neg Bool.false_ne_true, hlead]
  apply isBelow_append
  obtain ⟨parent, name, hnames, hhere, habove⟩ := hname
  rw [hnames, Path.lead_concat _ _ hhere habove]
  simp

/-- A path at which a file can be written. -/
structure Accepts (t : FileTree) (path : String) : Prop where
  check : checkPath path = .ok ()
  name : Path.EndsInFileName path
  slash : Path.endsInSlash path = false
  walk : t.walk (t.startOf path) (Path.names path) = .ok (t.placeOf path)
  entry : t.entry? (t.placeOf path) ≠ some .directory

theorem write_eq_put :
    t.write path bytes = .ok t' ↔
      t.Accepts path ∧ t' = t.put (t.placeOf path) (.file bytes) := by
  rw [write_eq_ok]
  constructor
  · rintro ⟨hcheck, hname, hslash, place, hwalk, hentry, rfl⟩
    obtain rfl : place = t.placeOf path := walk_eq_lead hwalk
    exact ⟨⟨hcheck, hname, hslash, hwalk, hentry⟩, rfl⟩
  · rintro ⟨h, rfl⟩
    exact ⟨h.check, h.name, h.slash, _, h.walk, h.entry, rfl⟩

theorem not_accepts_of_write_error {cause : FileError} (h : t.write path bytes = .error cause) :
    ¬ t.Accepts path := by
  intro ha
  have hok : t.write path bytes = .ok _ := write_eq_put.2 ⟨ha, rfl⟩
  rw [h] at hok
  simp at hok

instance (t : FileTree) (path : String) : Decidable (t.Accepts path) :=
  decidable_of_iff ((t.write path .empty).toOption.isSome = true) <| by
    constructor
    · intro h
      obtain ⟨t', ht'⟩ := Option.isSome_iff_exists.1 h
      exact (write_eq_put.1 (toOption_eq_some_iff.1 ht')).1
    · intro h
      rw [toOption_eq_some_iff.2 (write_eq_put.2 ⟨h, rfl⟩)]
      rfl

theorem entry_write (h : t.write path bytes = .ok t') (l : Location) :
    t'.entry? l = if l = t.placeOf path then some (.file bytes) else t.entry? l := by
  obtain ⟨haccepts, rfl⟩ := write_eq_put.1 h
  split
  · rename_i hl
    have hne : l ≠ [] := by
      rintro rfl
      exact haccepts.entry (by simp [← hl, FileTree.entry?])
    exact hl ▸ entry_put_self t _ hne
  · exact entry_put_ne t _ ‹_›

theorem write_sameDirectories (h : t.write path bytes = .ok t') : SameDirectories t t' := by
  obtain ⟨haccepts, rfl⟩ := write_eq_put.1 h
  exact put_sameDirectories haccepts.entry

theorem Accepts.read (h : t.Accepts path) (hsame : SameDirectories t t')
    (hentry : t'.entry? (t.placeOf path) = some (.file bytes)) : t'.read path = .ok bytes := by
  refine read_eq_ok.2 ⟨_, find_eq_ok.2 ⟨h.check, ?_, hentry, .inr h.slash⟩⟩
  rw [hsame.walk_eq_ok, startOf_congr hsame.1]
  exact h.walk

theorem read_write (h : t.write path bytes = .ok t') : t'.read path = .ok bytes :=
  (write_eq_put.1 h).1.read (write_sameDirectories h) (by rw [entry_write h, if_pos rfl])

/-- What writing does: a file with just these bytes stands where the path leads, and nothing else has
changed. -/
structure Puts (t : FileTree) (path : String) (bytes : ByteArray) (t' : FileTree) : Prop where
  current : t'.current = t.current
  file : t'.entry? (t.placeOf path) = some (.file bytes)
  elsewhere : ∀ l, l ≠ t.placeOf path → t'.entry? l = t.entry? l

theorem puts_of_write (h : t.write path bytes = .ok t') : t.Puts path bytes t' where
  current := (write_sameDirectories h).1
  file := by rw [entry_write h, if_pos rfl]
  elsewhere := fun l hl => by rw [entry_write h, if_neg hl]

theorem find_write_of_ne {other : String} {e : Entry} (h : t.write path bytes = .ok t')
    (hne : t.placeOf other ≠ t.placeOf path) :
    t'.find other = .ok (l, e) ↔ t.find other = .ok (l, e) := by
  have hsame := write_sameDirectories h
  simp only [find_eq_ok, startOf_congr hsame.1, hsame.walk_eq_ok]
  refine and_congr_right fun _ => and_congr_right fun hwalk => ?_
  obtain rfl : l = t.placeOf other := walk_eq_lead hwalk
  rw [entry_write h, if_neg hne]

theorem read_write_of_ne {other : String} {bytes' : ByteArray} (h : t.write path bytes = .ok t')
    (hne : t.placeOf other ≠ t.placeOf path) :
    t'.read other = .ok bytes' ↔ t.read other = .ok bytes' := by
  simp only [read_eq_ok, find_write_of_ne h hne]

theorem SameDirectories.refl : SameDirectories t t := ⟨rfl, fun _ => Iff.rfl⟩

theorem SameDirectories.trans {t₁ : FileTree} (h : SameDirectories t t₁)
    (h' : SameDirectories t₁ t') : SameDirectories t t' :=
  ⟨h'.1.trans h.1, fun l => (h'.2 l).trans (h.2 l)⟩

theorem SameDirectories.accepts_iff (h : SameDirectories t t') :
    t'.Accepts path ↔ t.Accepts path := by
  have hstart := startOf_congr h.1 path
  have hplace := placeOf_congr h.1 path
  constructor
  · intro ha
    refine ⟨ha.check, ha.name, ha.slash, ?_, ?_⟩
    · rw [← h.walk_eq_ok, ← hstart, ← hplace]
      exact ha.walk
    · rw [ne_eq, ← h.2, ← hplace]
      exact ha.entry
  · intro ha
    refine ⟨ha.check, ha.name, ha.slash, ?_, ?_⟩
    · rw [h.walk_eq_ok, hstart, hplace]
      exact ha.walk
    · rw [ne_eq, h.2, hplace]
      exact ha.entry

theorem write_join_eq_error {above x : String} {parent : Location} {cause : FileError}
    (hx : Path.IsFileName x) (hwalk : t.walk (t.startOf above) (Path.names above) = .ok parent)
    (hdir : t.entry? parent = some .directory) :
    t.write (Path.join above x) bytes = .error cause ↔
      checkPath (Path.join above x) = .error cause ∨
        checkPath (Path.join above x) = .ok () ∧
          (follow parent x.toList = .error cause ∨
            ∃ place, follow parent x.toList = .ok place ∧ t.entry? place = some .directory ∧
              cause = .isDirectory) := by
  have hstart : t.startOf (Path.join above x) = t.startOf above := by
    rw [startOf, startOf, Path.isAbsolute_join, Path.isAbsolute_name hx.1, Bool.false_or]
  unfold write target
  rw [hstart, Path.names_join above hx.1, List.getLast?_concat, List.dropLast_concat, hwalk,
    Path.endsInSlash_join above hx.1]
  cases hcheck : checkPath (Path.join above x) with
  | error err => simp [bind, Except.bind]
  | ok u =>
    cases hfollow : follow parent x.toList with
    | error err =>
      simp [hdir, requireDirectory, hx.2.1, hx.2.2, hfollow, bind, Except.bind]
    | ok place =>
      by_cases hplace : t.entry? place = some .directory
      · simp [hdir, requireDirectory, hx.2.1, hx.2.2, hfollow, hplace, bind, Except.bind, throw,
          throwThe, MonadExceptOf.throw, eq_comm]
      · simp [hdir, requireDirectory, hx.2.1, hx.2.2, hfollow, hplace, bind, Except.bind, pure,
          Except.pure]

theorem write_error_after {above x y : String} {bytes' : ByteArray} {cause : FileError}
    (hx : Path.IsFileName x) (hy : Path.IsFileName y)
    (h : t.write (Path.join above y) bytes = .ok t') :
    t'.write (Path.join above x) bytes' = .error cause ↔
      t.write (Path.join above x) bytes' = .error cause := by
  have hsame := write_sameDirectories h
  obtain ⟨parent, hwalk, hdir⟩ : ∃ parent, t.walk (t.startOf above) (Path.names above) =
      .ok parent ∧ t.entry? parent = some .directory := by
    have haccepts := (write_eq_put.1 h).1.walk
    rw [Path.names_join above hy.1, walk_concat_eq_ok, startOf, Path.isAbsolute_join,
      Path.isAbsolute_name hy.1, Bool.false_or] at haccepts
    obtain ⟨parent, hwalk, hdir, -⟩ := haccepts
    exact ⟨parent, hwalk, hdir⟩
  have hwalk' : t'.walk (t'.startOf above) (Path.names above) = .ok parent := by
    rw [hsame.walk_eq_ok, startOf_congr hsame.1]
    exact hwalk
  rw [write_join_eq_error hx hwalk hdir, write_join_eq_error hx hwalk' ((hsame.2 parent).2 hdir)]
  simp only [hsame.2]

end FileTree
end ServiceMetadata
