import ServiceMetadata.Proofs.FileTree.Writing

/-!
# Files put one after the other

Of several files that are put at one place the last stays. So putting the same files once more
changes nothing, and the order does not matter if no two go to one place.
-/
namespace ServiceMetadata.FileTree

variable {t t' t₁ : FileTree} {l place : Location} {bytes : ByteArray}
  {files files' : List (Location × ByteArray)}

structure SameEntries (t t' : FileTree) : Prop where
  current : t'.current = t.current
  entry : ∀ l, t'.entry? l = t.entry? l

theorem SameEntries.refl : SameEntries t t := ⟨rfl, fun _ => rfl⟩

def putFiles (t : FileTree) : List (Location × ByteArray) → FileTree
  | [] => t
  | (place, bytes) :: rest => (t.put place (.file bytes)).putFiles rest

theorem putFiles_append (t : FileTree) (files files' : List (Location × ByteArray)) :
    t.putFiles (files ++ files') = (t.putFiles files).putFiles files' := by
  induction files generalizing t with
  | nil => rfl
  | cons row files ih => exact ih _

theorem current_putFiles (t : FileTree) (files : List (Location × ByteArray)) :
    (t.putFiles files).current = t.current := by
  induction files generalizing t with
  | nil => rfl
  | cons row files ih => exact ih _

def lastBytes (files : List (Location × ByteArray)) (l : Location) : Option ByteArray :=
  files.reverse.lookup l

theorem lastBytes_cons (place : Location) (bytes : ByteArray)
    (files : List (Location × ByteArray)) (l : Location) :
    lastBytes ((place, bytes) :: files) l =
      (lastBytes files l).or (if l = place then some bytes else none) := by
  rw [lastBytes, List.reverse_cons, List.lookup_append, lastBytes]
  by_cases h : l = place
  · simp [h]
  · rw [List.lookup_cons, beq_eq_false_iff_ne.2 h, if_neg h, List.lookup_nil]

theorem entry_put (t : FileTree) (bytes : ByteArray) (hl : l ≠ []) :
    FileTree.entry? (t.put place (.file bytes)) l =
      if l = place then some (.file bytes) else t.entry? l := by
  split
  · rename_i h
    subst h
    exact entry_put_self t _ hl
  · exact entry_put_ne t _ ‹_›

theorem entry_putFiles (t : FileTree) (files : List (Location × ByteArray)) (hl : l ≠ []) :
    FileTree.entry? (t.putFiles files) l = ((lastBytes files l).map .file).or (t.entry? l) := by
  induction files generalizing t with
  | nil => rfl
  | cons row files ih =>
    obtain ⟨place, bytes⟩ := row
    rw [putFiles, ih, lastBytes_cons, entry_put t bytes hl]
    by_cases hplace : l = place
    · cases lastBytes files l <;> simp [hplace]
    · simp [hplace]

theorem sameEntries_of_ne_root (hcurrent : t'.current = t.current)
    (h : ∀ l, l ≠ [] → t'.entry? l = t.entry? l) : SameEntries t t' := by
  refine ⟨hcurrent, fun l => ?_⟩
  by_cases hl : l = []
  · rw [FileTree.entry?, FileTree.entry?, if_pos hl, if_pos hl]
  · exact h l hl

theorem putFiles_putFiles (t : FileTree) (files : List (Location × ByteArray)) :
    SameEntries (t.putFiles files) ((t.putFiles files).putFiles files) := by
  refine sameEntries_of_ne_root (current_putFiles _ files) fun l hl => ?_
  rw [entry_putFiles _ files hl, entry_putFiles _ files hl]
  cases lastBytes files l <;> rfl

theorem lookup_eq_some_iff_mem (hdistinct : (files.map (·.1)).Nodup) :
    files.lookup l = some bytes ↔ (l, bytes) ∈ files := by
  constructor
  · intro h
    obtain ⟨before, after, rfl, -⟩ := List.lookup_eq_some_iff.1 h
    simp
  · intro h
    obtain ⟨before, after, rfl⟩ := List.append_of_mem h
    refine List.lookup_eq_some_iff.2 ⟨before, after, rfl, fun row hrow => ?_⟩
    rw [List.map_append, List.nodup_append] at hdistinct
    have hne : row.1 ≠ l := hdistinct.2.2 _ (List.mem_map_of_mem hrow) _ (by simp)
    simpa using hne.symm

theorem lastBytes_perm (hperm : files.Perm files') (hdistinct : (files.map (·.1)).Nodup)
    (l : Location) : lastBytes files' l = lastBytes files l := by
  -- A place that comes once is looked up alike from either end and in any order.
  have hreverse : files.reverse.Perm files'.reverse :=
    (List.reverse_perm files).trans (hperm.trans (List.reverse_perm files').symm)
  have hdistinct₁ : (files.reverse.map (·.1)).Nodup :=
    ((List.reverse_perm files).map _).nodup_iff.2 hdistinct
  have hdistinct₂ : (files'.reverse.map (·.1)).Nodup := (hreverse.map _).nodup_iff.1 hdistinct₁
  apply Option.ext
  intro bytes
  rw [lastBytes, lookup_eq_some_iff_mem hdistinct₂, lastBytes, lookup_eq_some_iff_mem hdistinct₁,
    hreverse.mem_iff]

theorem putFiles_perm (t : FileTree) (hperm : files.Perm files')
    (hdistinct : (files.map (·.1)).Nodup) :
    SameEntries (t.putFiles files) (t.putFiles files') := by
  refine sameEntries_of_ne_root ?_ fun l hl => ?_
  · rw [current_putFiles, current_putFiles]
  · rw [entry_putFiles t files' hl, entry_putFiles t files hl, lastBytes_perm hperm hdistinct]

end ServiceMetadata.FileTree
