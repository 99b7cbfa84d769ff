import ServiceMetadata.Proofs.Batch.Descriptors
import ServiceMetadata.Proofs.FileTree.Files

/-!
# The files of a batch

Which files the records of a batch go to, and what is put there, is settled before the first of them
is written. The tree that a batch leaves is the one it started on with these files put in order.
-/
namespace ServiceMetadata.Batch

variable {b : Batch} {t t' : FileTree} {job : Job} {row : Location × ByteArray}

/-- The place and the content of the file that is written for a record, if there is one. -/
def fileOf (b : Batch) (t : FileTree) (job : Job) : Option (Location × ByteArray) :=
  (b.runJob t job).1.written?.map fun path => (t.placeOf path, (b.descriptorText t job).toUTF8)

def files (b : Batch) (t : FileTree) (js : List Job) : List (Location × ByteArray) :=
  js.filterMap (b.fileOf t)

theorem fileOf_eq_some_iff :
    b.fileOf t job = some row ↔
      job.element.isConcreteClass = true ∧ t.Accepts (b.descriptorPath job.element.name) ∧
        row = (t.placeOf (b.descriptorPath job.element.name), (b.descriptorText t job).toUTF8) := by
  rcases runJob_cases b t job with
    ⟨hkind, hrun⟩ | ⟨hkind, t', hwrite, hrun⟩ | ⟨hkind, cause, hwrite, hrun⟩
  · simp [fileOf, hrun, Outcome.written?, hkind]
  · have haccepts := (FileTree.write_eq_put.1 hwrite).1
    simp [fileOf, hrun, Outcome.written?, hkind, haccepts, eq_comm]
  · have hrefused := FileTree.not_accepts_of_write_error hwrite
    simp [fileOf, hrun, Outcome.written?, hrefused]

theorem Alike.fileOf (h : b.Alike t t') (job : Job) : b.fileOf t' job = b.fileOf t job := by
  apply Option.ext
  intro row
  rw [fileOf_eq_some_iff, fileOf_eq_some_iff, h.directories.accepts_iff,
    FileTree.placeOf_congr h.directories.1, h.descriptorText]

theorem Alike.files (h : b.Alike t t') (js : List Job) : b.files t' js = b.files t js := by
  rw [Batch.files, Batch.files, funext h.fileOf]

theorem runJob_tree (b : Batch) (t : FileTree) (job : Job) :
    (b.runJob t job).2 = t.putFiles (b.fileOf t job).toList := by
  rcases runJob_cases b t job with ⟨-, hrun⟩ | ⟨-, t', hwrite, hrun⟩ | ⟨-, cause, -, hrun⟩
  · rw [fileOf, hrun]
    rfl
  · rw [fileOf, hrun, (FileTree.write_eq_put.1 hwrite).2]
    rfl
  · rw [fileOf, hrun]
    rfl

theorem files_cons (b : Batch) (t : FileTree) (job : Job) (js : List Job) :
    b.files t (job :: js) = (b.fileOf t job).toList ++ b.files t js := by
  rw [files, files, List.filterMap_cons]
  cases b.fileOf t job <;> rfl

theorem runJobs_tree (b : Batch) (t : FileTree) (js : List Job) :
    (b.runJobs t js).2 = t.putFiles (b.files t js) := by
  induction js generalizing t with
  | nil => rfl
  | cons job js ih =>
    rw [runJobs_cons, ih, (runJob_alike b t job).files, runJob_tree, files_cons,
      FileTree.putFiles_append]

end ServiceMetadata.Batch
