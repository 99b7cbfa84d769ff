import ServiceMetadata.Proofs.Batch.SharedFiles
import ServiceMetadata.Proofs.FileTree.Directories

/-!
# What a batch changes outside its output root

A batch makes the directories that the path of its output root leads through and writes the files
that it reports, and changes nothing else. The path of a file is the output root joined with the
name of a class, whatever that name is. As long as the name leads down, the file is below the output
root; a name that is absolute or climbs out takes its file elsewhere.
-/
namespace ServiceMetadata

namespace Batch

variable {b : Batch} {t t₁ t' : FileTree} {es : List Element} {paths paths' : List String}
  {result : Except Error Report}

structure WritesFiles (paths : List String) (t t' : FileTree) : Prop where
  current : t'.current = t.current
  entry : ∀ l, t'.entry? l = t.entry? l ∨ ∃ path ∈ paths, l = t.placeOf path
  file : ∀ path ∈ paths, ∃ bytes, t'.entry? (t.placeOf path) = some (.file bytes)

theorem WritesFiles.refl : WritesFiles [] t t := ⟨rfl, fun _ => .inl rfl, by simp⟩

theorem WritesFiles.trans (h : WritesFiles paths t t₁) (h' : WritesFiles paths' t₁ t') :
    WritesFiles (paths ++ paths') t t' := by
  have hplace := FileTree.placeOf_congr h.current
  refine ⟨h'.current.trans h.current, fun l => ?_, fun path hpath => ?_⟩
  · rcases h'.entry l with hl | ⟨path, hpath, hl⟩
    · rcases h.entry l with hl' | ⟨path, hpath, hl'⟩
      · exact .inl (hl.trans hl')
      · exact .inr ⟨path, List.mem_append_left _ hpath, hl'⟩
    · exact .inr ⟨path, List.mem_append_right _ hpath, hl.trans (hplace path)⟩
  · rcases List.mem_append.1 hpath with hpath | hpath
    · rcases h'.entry (t.placeOf path) with hl | ⟨path', hpath', hl⟩
      · rw [hl]
        exact h.file path hpath
      · rw [hl]
        exact h'.file path' hpath'
    · rw [← hplace]
      exact h'.file path hpath

theorem runJob_writes (b : Batch) (t : FileTree) (job : Job) :
    WritesFiles (writtenPaths [(b.runJob t job).1]) t (b.runJob t job).2 := by
  rcases runJob_cases b t job with ⟨-, hrun⟩ | ⟨-, t', hwrite, hrun⟩ | ⟨-, cause, -, hrun⟩
  · rw [hrun]
    exact .refl
  · have hentry := FileTree.entry_write hwrite
    rw [hrun, writtenPaths_written]
    refine ⟨(FileTree.write_sameDirectories hwrite).1, fun l => ?_, fun path hpath => ?_⟩
    · rw [hentry]
      split
      · exact .inr ⟨_, List.mem_singleton_self _, ‹_›⟩
      · exact .inl rfl
    · rw [List.mem_singleton.1 hpath, hentry, if_pos rfl]
      exact ⟨_, rfl⟩
  · rw [hrun]
    exact .refl

theorem runJobs_writes (b : Batch) (t : FileTree) (js : List Job) :
    WritesFiles (writtenPaths (b.runJobs t js).1) t (b.runJobs t js).2 := by
  induction js generalizing t with
  | nil => exact .refl
  | cons job js ih =>
    rw [runJobs_cons, writtenPaths_cons]
    exact (runJob_writes b t job).trans (ih _)

def Wrote (result : Except Error Report) (path : String) : Prop :=
  ∃ report, result = .ok report ∧ path ∈ report.written

theorem run_changes (hrun : b.run t es = (result, t')) :
    (∀ l, t'.entry? l = t.entry? l ∨
      (t.LeadsThrough b.outputRoot l ∧ t.entry? l = none ∧ t'.entry? l = some .directory) ∨
      ∃ path, Wrote result path ∧ l = t.placeOf path) ∧
    ∀ path, Wrote result path → ∃ bytes, t'.entry? (t.placeOf path) = some (.file bytes) := by
  have hroot := FileTree.makeDirectories_adds t b.outputRoot
  rcases run_cases b t es with ⟨cause, -, h⟩ | ⟨-, h⟩
  · rw [h, Prod.mk.injEq] at hrun
    obtain ⟨rfl, rfl⟩ := hrun
    refine ⟨fun l => (hroot.entry l).imp_right .inl, ?_⟩
    rintro path ⟨report, hreport, -⟩
    simp at hreport
  · rw [h, Prod.mk.injEq] at hrun
    obtain ⟨rfl, rfl⟩ := hrun
    have hfiles := runJobs_writes b (t.makeDirectories b.outputRoot).1 (jobs es)
    have hplace := FileTree.placeOf_congr hroot.current
    refine ⟨fun l => ?_, ?_⟩
    · rcases hfiles.entry l with hl | ⟨path, hpath, hl⟩
      · rw [hl]
        exact (hroot.entry l).imp_right .inl
      · exact .inr (.inr ⟨path, ⟨_, rfl, hpath⟩, hl.trans (hplace path)⟩)
    · rintro path ⟨report, hreport, hpath⟩
      obtain rfl := Except.ok.inj hreport
      rw [← hplace]
      exact hfiles.file path hpath

/-- Nothing is new, changed or gone outside the output root, except that directories which its path
leads through may be new. -/
def ChangesOnlyBelowRoot (b : Batch) (t t' : FileTree) : Prop :=
  ∀ l, ¬ IsBelow (t.placeOf b.outputRoot) l →
    t'.entry? l = t.entry? l ∨
      t.LeadsThrough b.outputRoot l ∧ t.entry? l = none ∧ t'.entry? l = some .directory

theorem isBelow_descriptorPath (b : Batch) (t : FileTree) {name : String}
    (h : Path.Descends (name ++ ".json")) :
    IsBelow (t.placeOf b.outputRoot) (t.placeOf (b.descriptorPath name)) :=
  FileTree.isBelow_placeOf_join t b.outputRoot h (endsInFileName_json name)

theorem exists_job_of_wrote (hrun : b.run t es = (result, t')) {path : String}
    (h : Wrote result path) :
    ∃ job ∈ jobs es, job.element.isConcreteClass = true ∧
      path = b.descriptorPath job.element.name := by
  obtain ⟨report, rfl, hpath⟩ := h
  obtain ⟨t₁, -, rfl, -⟩ := run_eq_ok hrun
  exact mem_writtenPaths hpath

/-- A batch stays below its output root just if every file that it writes does, apart from files
that it leaves as they were. It does so if the names of the classes that it writes lead down. -/
theorem changes_only_below_root_iff (hrun : b.run t es = (result, t')) :
    (b.ChangesOnlyBelowRoot t t' ↔
      ∀ path, Wrote result path → IsBelow (t.placeOf b.outputRoot) (t.placeOf path) ∨
        t'.entry? (t.placeOf path) = t.entry? (t.placeOf path)) ∧
    ((∀ job ∈ jobs es, job.element.isConcreteClass = true →
        Path.Descends (job.element.name ++ ".json")) →
      b.ChangesOnlyBelowRoot t t') := by
  obtain ⟨hentry, hfile⟩ := run_changes hrun
  have hiff : b.ChangesOnlyBelowRoot t t' ↔
      ∀ path, Wrote result path → IsBelow (t.placeOf b.outputRoot) (t.placeOf path) ∨
        t'.entry? (t.placeOf path) = t.entry? (t.placeOf path) := by
    constructor
    · intro h path hpath
      by_cases hbelow : IsBelow (t.placeOf b.outputRoot) (t.placeOf path)
      · exact .inl hbelow
      · rcases h _ hbelow with hsame | ⟨-, -, hdir⟩
        · exact .inr hsame
        · obtain ⟨bytes, hbytes⟩ := hfile path hpath
          simp [hdir] at hbytes
    · intro h l hl
      rcases hentry l with hsame | hdir | ⟨path, hpath, rfl⟩
      · exact .inl hsame
      · exact .inr hdir
      · exact .inl ((h path hpath).resolve_left hl)
  refine ⟨hiff, fun hnames => hiff.2 fun path hpath => .inl ?_⟩
  obtain ⟨job, hjob, hconcrete, rfl⟩ := exists_job_of_wrote hrun hpath
  exact isBelow_descriptorPath b t (hnames job hjob hconcrete)

def nestedRoot : Batch := { fromScratch with outputRoot := "gen/meta" }

def leadingDown : List Element :=
  [{ name := "a.A", service := some {} }, { name := "./b.B", dataSource := some {} }]

theorem changes_only_below_nested_root :
    ∃ report t', nestedRoot.run nothing leadingDown = (.ok report, t') ∧
      report.written = ["gen/meta/a.A.json", "gen/meta/./b.B.json"] ∧
      nestedRoot.ChangesOnlyBelowRoot nothing t' := by
  obtain ⟨report, t', hrun, hwritten⟩ := exists_run_of_written nestedRoot nothing leadingDown
    ["gen/meta/a.A.json", "gen/meta/./b.B.json"] (by decide +kernel)
  exact ⟨report, t', hrun, hwritten, (changes_only_below_root_iff hrun).2 (by decide +kernel)⟩

def climbingOut : Manifest where
  classes := [{ name := "../x", service := some {} }]

def climbingOutText : String :=
  "\x7b\"classes\":[\x7b\"name\":\"../x\",\"service\":\x7b\x7d\x7d]\x7d"

theorem file_beside_output_root :
    Manifest.parse climbingOutText = .ok climbingOut ∧
      ∃ report t', fromScratch.run nothing climbingOut.elements = (.ok report, t') ∧
        report.written = ["out/../x.json"] ∧ ¬ fromScratch.ChangesOnlyBelowRoot nothing t' := by
  have helements := elements_of_roots (m := climbingOut) (by decide)
  obtain ⟨report, t', hrun, hwritten⟩ := exists_run_of_written fromScratch nothing
    climbingOut.elements ["out/../x.json"] (by rw [helements]; decide +kernel)
  refine ⟨toOption_eq_some_iff.1 (by decide +kernel), report, t', hrun, hwritten, fun h => ?_⟩
  obtain ⟨bytes, hbytes⟩ := (run_changes hrun).2 "out/../x.json" ⟨report, rfl, by simp [hwritten]⟩
  have hbeside : ¬ IsBelow (nothing.placeOf fromScratch.outputRoot)
      (nothing.placeOf "out/../x.json") := by decide +kernel
  have hnone : FileTree.entry? nothing (nothing.placeOf "out/../x.json") = none := by
    decide +kernel
  rcases h _ hbeside with hsame | ⟨-, -, hdir⟩
  · rw [hbytes, hnone] at hsame
    simp at hsame
  · rw [hbytes] at hdir
    simp at hdir

end Batch
end ServiceMetadata
