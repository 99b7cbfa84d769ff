import ServiceMetadata.Proofs.Batch.Descriptors
import ServiceMetadata.Proofs.FileTree.Directories

/-!
# What a batch reports

If the output root cannot be made, a batch fails and leaves all files alone. Otherwise it accounts
for every record once, in the order of the records: those of classes that are not concrete are
skipped, and those of concrete classes are written or fail. Writing makes and removes no directory,
so which paths can be written is settled before the first descriptor is, and a report is clean just
if the file of every concrete class with a record is among the written ones.
-/
namespace ServiceMetadata.Batch

variable {b : Batch} {t t₀ : FileTree} {js : List Job} {r : Report} {path : String}

/-- The reports that a list of records may lead to, where `t` says which paths can be written. -/
inductive Accounts (b : Batch) (t : FileTree) : List Job → Report → Prop
  | nil : Accounts b t [] { written := [], skipped := [], failed := [] }
  | skipped {job : Job} {js : List Job} {r : Report} (hkind : job.element.isConcreteClass = false)
      (rest : Accounts b t js r) :
      Accounts b t (job :: js) { r with skipped := job.element.name :: r.skipped }
  | written {job : Job} {js : List Job} {r : Report} (hkind : job.element.isConcreteClass = true)
      (hpath : t.Accepts (b.descriptorPath job.element.name)) (rest : Accounts b t js r) :
      Accounts b t (job :: js)
        { r with written := b.descriptorPath job.element.name :: r.written }
  | failed {job : Job} {js : List Job} {r : Report} (hkind : job.element.isConcreteClass = true)
      (hpath : ¬ t.Accepts (b.descriptorPath job.element.name)) (cause : FileError)
      (rest : Accounts b t js r) :
      Accounts b t (job :: js)
        { r with
          failed := (job.element.name, .file (b.descriptorPath job.element.name) cause) ::
            r.failed }

theorem accounts_runJob (hsame : FileTree.SameDirectories t₀ t) (job : Job)
    {outcomes : List Outcome} (rest : Accounts b t₀ js (.ofOutcomes outcomes)) :
    Accounts b t₀ (job :: js) (.ofOutcomes ((b.runJob t job).1 :: outcomes)) := by
  rcases runJob_cases b t job with
    ⟨hkind, hrun⟩ | ⟨hkind, t', hwrite, hrun⟩ | ⟨hkind, cause, hwrite, hrun⟩
  · rw [hrun]
    exact .skipped hkind rest
  · rw [hrun]
    exact .written hkind (hsame.accepts_iff.1 (FileTree.write_eq_put.1 hwrite).1) rest
  · rw [hrun]
    exact .failed hkind (mt hsame.accepts_iff.2 (FileTree.not_accepts_of_write_error hwrite)) cause rest

theorem accounts_runJobs (hsame : FileTree.SameDirectories t₀ t) (js : List Job) :
    Accounts b t₀ js (.ofOutcomes (b.runJobs t js).1) := by
  induction js generalizing t with
  | nil => exact .nil
  | cons job js ih =>
    rw [runJobs_cons]
    exact accounts_runJob hsame job (ih (hsame.trans (runJob_alike b t job).directories))

theorem Accounts.length_eq (h : Accounts b t js r) :
    r.written.length + r.skipped.length + r.failed.length = js.length := by
  induction h with
  | nil => rfl
  | skipped _ _ ih => simp only [List.length_cons]; omega
  | written _ _ _ ih => simp only [List.length_cons]; omega
  | failed _ _ _ _ ih => simp only [List.length_cons]; omega

theorem Accounts.unique {r' : Report} (h : Accounts b t js r) (h' : Accounts b t js r') :
    r'.written = r.written ∧ r'.skipped = r.skipped ∧
      r'.failed.map (·.1) = r.failed.map (·.1) := by
  induction h generalizing r' with
  | nil =>
    cases h' with
    | nil => exact ⟨rfl, rfl, rfl⟩
  | skipped hkind _ ih =>
    cases h' with
    | skipped _ rest =>
      obtain ⟨hwritten, hskipped, hfailed⟩ := ih rest
      exact ⟨hwritten, congrArg (_ :: ·) hskipped, hfailed⟩
    | written hkind' => simp [hkind] at hkind'
    | failed hkind' => simp [hkind] at hkind'
  | written hkind hpath _ ih =>
    cases h' with
    | skipped hkind' => simp [hkind] at hkind'
    | written _ _ rest =>
      obtain ⟨hwritten, hskipped, hfailed⟩ := ih rest
      exact ⟨congrArg (_ :: ·) hwritten, hskipped, hfailed⟩
    | failed _ hpath' => exact absurd hpath hpath'
  | failed hkind hpath _ _ ih =>
    cases h' with
    | skipped hkind' => simp [hkind] at hkind'
    | written _ hpath' => exact absurd hpath' hpath
    | failed _ _ _ rest =>
      obtain ⟨hwritten, hskipped, hfailed⟩ := ih rest
      exact ⟨hwritten, hskipped, congrArg (_ :: ·) hfailed⟩

theorem Accounts.accepts (h : Accounts b t js r) (hpath : path ∈ r.written) : t.Accepts path := by
  induction h with
  | nil => simp at hpath
  | skipped _ _ ih => exact ih hpath
  | written _ haccepts _ ih =>
    rcases List.mem_cons.1 hpath with rfl | hpath
    · exact haccepts
    · exact ih hpath
  | failed _ _ _ _ ih => exact ih hpath

theorem Accounts.written_of_no_failure (h : Accounts b t js r) (hclean : r.failed = []) :
    r.written = (js.filter (·.element.isConcreteClass)).map
      fun job => b.descriptorPath job.element.name := by
  induction h with
  | nil => rfl
  | skipped hkind _ ih => rw [List.filter_cons_of_neg (by simp [hkind]), ih hclean]
  | written hkind _ _ ih => rw [List.filter_cons, if_pos hkind, List.map_cons, ih hclean]
  | failed => simp at hclean

theorem Accounts.accepts_of_all_written (h : Accounts b t js r)
    (hall : ∀ job ∈ js, job.element.isConcreteClass = true →
      t.Accepts (b.descriptorPath job.element.name)) : r.failed = [] := by
  induction h with
  | nil => rfl
  | skipped _ _ ih => exact ih fun job hjob => hall job (List.mem_cons_of_mem _ hjob)
  | written _ _ _ ih => exact ih fun job hjob => hall job (List.mem_cons_of_mem _ hjob)
  | failed hkind hpath _ _ _ => exact absurd (hall _ List.mem_cons_self hkind) hpath

theorem Accounts.isClean_iff (h : Accounts b t js r) :
    r.isClean = true ↔ ∀ job ∈ js, job.element.isConcreteClass = true →
      b.descriptorPath job.element.name ∈ r.written := by
  rw [Report.isClean, List.isEmpty_iff]
  constructor
  · intro hclean job hjob hkind
    rw [h.written_of_no_failure hclean]
    exact List.mem_map_of_mem (List.mem_filter.2 ⟨hjob, hkind⟩)
  · intro hall
    exact h.accepts_of_all_written fun job hjob hkind => h.accepts (hall job hjob hkind)

theorem length_filterMap_map {α β γ : Type} (record : α → Option β) (make : α → β → γ)
    (es : List α) :
    (es.filterMap fun e => (record e).map (make e)).length =
      (es.filter fun e => (record e).isSome).length := by
  induction es with
  | nil => rfl
  | cons e es ih => cases hr : record e <;> simp [hr, ih]

theorem length_jobs (es : List Element) :
    (jobs es).length =
      (es.filter (·.service.isSome)).length + (es.filter (·.dataSource.isSome)).length := by
  rw [jobs, List.length_append, length_filterMap_map, length_filterMap_map]

/-- A batch fails just if its output root cannot be made, and then leaves all files alone; otherwise
it reports every record once. -/
theorem run_reports (b : Batch) (t : FileTree) (es : List Element) :
    (∀ cause, (t.makeDirectories b.outputRoot).2 = some cause →
      ∃ t', b.run t es = (.error (.outputRoot b.outputRoot cause), t') ∧
        ∀ l bytes, t'.entry? l = some (.file bytes) ↔ t.entry? l = some (.file bytes)) ∧
    ((t.makeDirectories b.outputRoot).2 = none →
      ∃ report t', b.run t es = (.ok report, t') ∧
        Accounts b (t.makeDirectories b.outputRoot).1 (jobs es) report ∧
        report.written.length + report.skipped.length + report.failed.length =
          (es.filter (·.service.isSome)).length + (es.filter (·.dataSource.isSome)).length ∧
        (report.isClean = true ↔ ∀ job ∈ jobs es, job.element.isConcreteClass = true →
          b.descriptorPath job.element.name ∈ report.written) ∧
        (report.isClean = true → report.written =
          ((jobs es).filter (·.element.isConcreteClass)).map
            fun job => b.descriptorPath job.element.name)) := by
  rcases run_cases b t es with ⟨cause, hcause, hrun⟩ | ⟨hmade, hrun⟩
  · constructor
    · intro cause' hcause'
      obtain rfl := Option.some.inj (hcause.symm.trans hcause')
      exact ⟨_, hrun, fun l => (FileTree.makeDirectories_adds t b.outputRoot).file_iff⟩
    · intro hmade
      simp [hcause] at hmade
  · constructor
    · intro cause hcause
      simp [hmade] at hcause
    · intro _
      have haccounts : Accounts b (t.makeDirectories b.outputRoot).1 (jobs es)
          (.ofOutcomes (b.runJobs (t.makeDirectories b.outputRoot).1 (jobs es)).1) :=
        accounts_runJobs .refl (jobs es)
      refine ⟨_, _, hrun, haccounts, ?_, haccounts.isClean_iff, fun hclean => ?_⟩
      · rw [haccounts.length_eq, length_jobs]
      · exact haccounts.written_of_no_failure (List.isEmpty_iff.1 hclean)

end ServiceMetadata.Batch
