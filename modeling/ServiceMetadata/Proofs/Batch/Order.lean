import Mathlib.Data.List.Nodup
import ServiceMetadata.Proofs.Batch.Files
import ServiceMetadata.Proofs.Batch.SharedFiles

/-!
# The order of a batch

Classes whose names are names of files have their descriptors side by side in the output root. What
happens to one of them does not depend on what has been written before. So if no two of them share a
file, the order in which they come does not matter.
-/
namespace ServiceMetadata.Batch

variable {b : Batch} {t t' : FileTree} {job : Job} {js js' : List Job} {es es' : List Element}

theorem outcome_congr
    (h : ∀ cause,
      t'.write (b.descriptorPath job.element.name) (b.descriptorText t' job).toUTF8 =
          .error cause ↔
        t.write (b.descriptorPath job.element.name) (b.descriptorText t job).toUTF8 =
          .error cause) :
    (b.runJob t' job).1 = (b.runJob t job).1 := by
  cases hkind : job.element.isConcreteClass with
  | false => rw [runJob_of_skipped hkind, runJob_of_skipped hkind]
  | true =>
    cases hwrite : t.write (b.descriptorPath job.element.name) (b.descriptorText t job).toUTF8 with
    | error cause => rw [runJob_of_error hkind hwrite, runJob_of_error hkind ((h cause).2 hwrite)]
    | ok t₁ =>
      cases hwrite' : t'.write (b.descriptorPath job.element.name)
          (b.descriptorText t' job).toUTF8 with
      | ok t₂ => rw [runJob_of_ok hkind hwrite, runJob_of_ok hkind hwrite']
      | error cause => exact absurd (hwrite.symm.trans ((h cause).1 hwrite')) (by simp)

theorem outcome_after {first : Job} (hfirst : '/' ∉ first.element.name.toList)
    (hjob : '/' ∉ job.element.name.toList) :
    (b.runJob (b.runJob t first).2 job).1 = (b.runJob t job).1 := by
  rcases runJob_cases b t first with ⟨-, hrun⟩ | ⟨-, t₁, hwrite, hrun⟩ | ⟨-, cause, -, hrun⟩
  · rw [hrun]
  · -- what has been written is a file next to the one of `job`, or that one itself
    apply outcome_congr
    intro cause
    rw [(runJob_alike b t first).descriptorText, hrun]
    exact FileTree.write_error_after (isFileName_json hjob) (isFileName_json hfirst) hwrite
  · rw [hrun]

theorem outcomes_eq (hjs : PlainNames js) :
    (b.runJobs t js).1 = js.map fun job => (b.runJob t job).1 := by
  induction js generalizing t with
  | nil => rfl
  | cons first js ih =>
    have hrest : PlainNames js := fun job hjob => hjs job (List.mem_cons_of_mem _ hjob)
    rw [runJobs_cons, ih hrest, List.map_cons]
    refine congrArg (_ :: ·) (List.map_congr_left fun job hjob => ?_)
    exact outcome_after (hjs first List.mem_cons_self) (hrest job hjob)

theorem files_distinct (hjs : PlainNames js)
    (hdistinct : js.Pairwise fun job job' => job.element.name ≠ job'.element.name) :
    ((b.files t js).map (·.1)).Nodup := by
  have hplaces : js.Pairwise fun job job' =>
      t.placeOf (b.descriptorPath job.element.name) ≠
        t.placeOf (b.descriptorPath job'.element.name) :=
    hdistinct.imp_of_mem fun hjob hjob' => placeOf_descriptorPath_ne b (hjs _ hjob) (hjs _ hjob')
  rw [List.Nodup, List.pairwise_map, files, List.pairwise_filterMap]
  refine hplaces.imp fun hne row hrow row' hrow' => ?_
  rw [(fileOf_eq_some_iff.1 hrow).2.2, (fileOf_eq_some_iff.1 hrow').2.2]
  exact hne

theorem jobs_distinct (hdistinct : (es.map (·.name)).Nodup)
    (hone : ∀ e ∈ es, e.service = none ∨ e.dataSource = none) :
    (jobs es).Pairwise fun job job' => job.element.name ≠ job'.element.name := by
  have hnames : es.Pairwise fun e e' => e.name ≠ e'.name := List.pairwise_map.1 hdistinct
  rw [jobs, List.pairwise_append, List.pairwise_filterMap, List.pairwise_filterMap]
  refine ⟨hnames.imp fun hne job hjob job' hjob' => ?_,
    hnames.imp fun hne job hjob job' hjob' => ?_, fun job hjob job' hjob' hsame => ?_⟩
  · obtain ⟨own, -, rfl⟩ := Option.map_eq_some_iff.1 hjob
    obtain ⟨own', -, rfl⟩ := Option.map_eq_some_iff.1 hjob'
    exact hne
  · obtain ⟨r, -, rfl⟩ := Option.map_eq_some_iff.1 hjob
    obtain ⟨r', -, rfl⟩ := Option.map_eq_some_iff.1 hjob'
    exact hne
  · -- the element of the two would have both records
    obtain ⟨e, he, hmade⟩ := List.mem_filterMap.1 hjob
    obtain ⟨own, hown, rfl⟩ := Option.map_eq_some_iff.1 hmade
    obtain ⟨e', he', hmade'⟩ := List.mem_filterMap.1 hjob'
    obtain ⟨r, hr, rfl⟩ := Option.map_eq_some_iff.1 hmade'
    obtain rfl : e = e' := List.inj_on_of_nodup_map hdistinct he he' hsame
    rcases hone e he with hnone | hnone
    · simp [hown] at hnone
    · simp [hr] at hnone

theorem jobs_perm (h : es.Perm es') : (jobs es).Perm (jobs es') :=
  (h.filterMap _).append (h.filterMap _)

inductive SameUpToOrder : Except Error Report → Except Error Report → Prop
  | failed (cause : Error) : SameUpToOrder (.error cause) (.error cause)
  | reported {r r' : Report} (written : r.written.Perm r'.written)
      (skipped : r.skipped.Perm r'.skipped) (failed : r.failed.Perm r'.failed) :
      SameUpToOrder (.ok r) (.ok r')

theorem sameUpToOrder_ofOutcomes {outcomes outcomes' : List Outcome}
    (h : outcomes.Perm outcomes') :
    SameUpToOrder (.ok (.ofOutcomes outcomes)) (.ok (.ofOutcomes outcomes')) :=
  .reported (h.filterMap _) (h.filterMap _) (h.filterMap _)

/-- Elements with names of their own and one record each lead to the same files and the same report
in whatever order they come. This is so on a tree without links, where paths that differ in their last
name lead to different places, and where nothing is kept from being written. -/
theorem run_perm (b : Batch) (t : FileTree) (hperm : es.Perm es')
    (hdistinct : (es.map (·.name)).Nodup) (hnames : ∀ e ∈ es, '/' ∉ e.name.toList)
    (hone : ∀ e ∈ es, e.service = none ∨ e.dataSource = none) :
    SameUpToOrder (b.run t es).1 (b.run t es').1 ∧
      FileTree.SameEntries (b.run t es).2 (b.run t es').2 := by
  have hjobs := jobs_perm hperm
  have hplain : PlainNames (jobs es) := fun job hjob => hnames _ (element_mem_of_mem_jobs hjob)
  have hplain' : PlainNames (jobs es') := fun job hjob => hplain job (hjobs.mem_iff.2 hjob)
  rcases hmade : t.makeDirectories b.outputRoot with ⟨t₁, _ | cause⟩
  · rw [run_of_made es hmade, run_of_made es' hmade]
    constructor
    · rw [outcomes_eq hplain, outcomes_eq hplain']
      exact sameUpToOrder_ofOutcomes (hjobs.map _)
    · rw [runJobs_tree, runJobs_tree]
      exact t₁.putFiles_perm (hjobs.filterMap _)
        (files_distinct hplain (jobs_distinct hdistinct hone))
  · rw [run_of_not_made es hmade, run_of_not_made es' hmade]
    exact ⟨.failed _, .refl⟩

def besideVersions : Batch := { fromScratch with outputRoot := "." }

def versionedTree : FileTree where
  current := []
  entries :=
    [("VERSION".toList :: [], .file "2.1\n".toUTF8), ("a.C.json".toList :: [], .directory)]

def sideBySide : List Element :=
  [{ name := "a.B", service := some {} }, { name := "a.C", service := some {} },
    { name := "VERSION", dataSource := some {} },
    { name := "a.D", kind := .interfaceKind, dataSource := some {} }]

theorem run_perm_beside_versions :
    (besideVersions.run versionedTree sideBySide).1.toOption.map (·.written) =
        some ["./a.B.json", "./VERSION.json"] ∧
      SameUpToOrder (besideVersions.run versionedTree sideBySide).1
        (besideVersions.run versionedTree sideBySide.reverse).1 ∧
      FileTree.SameEntries (besideVersions.run versionedTree sideBySide).2
        (besideVersions.run versionedTree sideBySide.reverse).2 := by
  refine ⟨by decide +kernel, ?_⟩
  exact run_perm besideVersions versionedTree (List.reverse_perm sideBySide).symm (by decide)
    (by decide) (by decide)

end ServiceMetadata.Batch
