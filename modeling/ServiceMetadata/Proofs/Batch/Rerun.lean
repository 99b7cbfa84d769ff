import ServiceMetadata.Proofs.Batch.Accounts
import ServiceMetadata.Proofs.Batch.Files
import ServiceMetadata.Proofs.Batch.SharedFiles

/-!
# Running a batch again

A batch that runs on the tree it has left finds its output root there and every version as it was, so
it puts the same files once more and leaves the tree alone. It reports the same, but a path that could
not be followed may fail for another reason, since a file may now stand where nothing was.
-/
namespace ServiceMetadata.Batch

variable {b : Batch} {t t' : FileTree} {es : List Element} {report : Report}

theorem sameEntries_runJobs_again (b : Batch) (t : FileTree) (js : List Job) :
    FileTree.SameEntries (b.runJobs t js).2 (b.runJobs (b.runJobs t js).2 js).2 := by
  have hfiles : b.files (b.runJobs t js).2 js = b.files t js := (runJobs_alike b t js).files js
  rw [runJobs_tree b (b.runJobs t js).2, hfiles, runJobs_tree b t]
  exact t.putFiles_putFiles _

/-- A run on the tree that a run has left leaves it alone and reports the same, except for the
reasons of failures. -/
theorem run_again (hrun : b.run t es = (.ok report, t')) :
    ∃ report' t'', b.run t' es = (.ok report', t'') ∧ FileTree.SameEntries t' t'' ∧
      report'.written = report.written ∧ report'.skipped = report.skipped ∧
      report'.failedNames = report.failedNames := by
  rcases run_cases b t es with ⟨cause, -, hfirst⟩ | ⟨hmade, hfirst⟩
  · simp [hfirst] at hrun
  rw [hfirst, Prod.mk.injEq] at hrun
  obtain ⟨hreport, rfl⟩ := hrun
  obtain rfl := Except.ok.inj hreport
  have hsame : FileTree.SameDirectories (t.makeDirectories b.outputRoot).1 _ :=
    (runJobs_alike b (t.makeDirectories b.outputRoot).1 (jobs es)).directories
  refine ⟨_, _, run_of_made es (FileTree.makeDirectories_again hmade hsame),
    sameEntries_runJobs_again b _ (jobs es), ?_⟩
  exact (accounts_runJobs .refl (jobs es)).unique (accounts_runJobs hsame (jobs es))

def entangled : List Element :=
  [{ name := "a.A.json/b.B", service := some {} },
    { name := "a.A", service := some {}, dataSource := some { version := "1" } },
    { name := "../a.A", dataSource := some {} }, { name := "x/../../a.A", service := some {} },
    { name := "a.A", service := some { version := "2" } }]

theorem run_again_entangled :
    ∃ report t', fromScratch.run nothing entangled = (.ok report, t') ∧
      report.written =
        ["out/a.A.json", "out/a.A.json", "out/a.A.json", "out/../a.A.json"] ∧
      ∃ report' t'', fromScratch.run t' entangled = (.ok report', t'') ∧
        FileTree.SameEntries t' t'' ∧ report'.written = report.written ∧
        report'.failedNames = report.failedNames := by
  obtain ⟨report, t', hrun, hwritten⟩ := exists_run_of_written fromScratch nothing entangled
    ["out/a.A.json", "out/a.A.json", "out/a.A.json", "out/../a.A.json"] (by decide +kernel)
  obtain ⟨report', t'', hagain, hsame, hwritten', -, hfailed⟩ := run_again hrun
  exact ⟨report, t', hrun, hwritten, report', t'', hagain, hsame, hwritten', hfailed⟩

end ServiceMetadata.Batch
