import Mathlib.Data.List.Forall2
import ServiceMetadata.Proofs.Batch.Accounts
import ServiceMetadata.Proofs.Batch.Files
import ServiceMetadata.Proofs.Batch.SharedFiles

/-!
# The tree that a batch leaves

The tree in the end is the one with the output root made and then the successful writes applied in
order, each of them replacing what its file held by the text that the record would have been given at
the start. So a file holds the text of the last descriptor that was put in it. What fails leaves no
trace, so that a run without some of the records that failed comes to the same tree.
-/
namespace ServiceMetadata

namespace Batch

variable {b : Batch} {t₀ t t₁ t' : FileTree} {job : Job} {js : List Job} {es es' : List Element}
  {report : Report} {text : String} {l : Location}

/-- The text of the descriptor of a record, with the versions that the project has in `t`. -/
inductive Describes (b : Batch) (t : FileTree) : Job → String → Prop
  | service (e : Element) (own : ServiceRecord) :
      Describes b t (.service e own) (ServiceDescriptor.shape.print
        (ServiceDescriptor.build b.vocabulary { tree := t, directory := b.workingDirectory }
          e.name e.common own))
  | dataSource (e : Element) (r : DataSourceRecord) :
      Describes b t (.dataSource e r) (DataSourceDescriptor.shape.print
        (DataSourceDescriptor.build b.vocabulary { tree := t, directory := b.workingDirectory }
          e.name r))

theorem describes_iff : b.Describes t job text ↔ text = b.descriptorText t job := by
  constructor
  · intro h
    cases h <;> rfl
  · rintro rfl
    cases job with
    | service e own => exact .service e own
    | dataSource e r => exact .dataSource e r

/-- The descriptors of records are put in their files one after the other, each with the text that
`t₀` gives. -/
inductive Writes (b : Batch) (t₀ : FileTree) : FileTree → List Job → FileTree → Prop
  | nil {t : FileTree} : Writes b t₀ t [] t
  | cons {t t₁ t' : FileTree} {job : Job} {js : List Job} {text : String}
      (describes : b.Describes t₀ job text)
      (puts : t.Puts (b.descriptorPath job.element.name) text.toUTF8 t₁)
      (rest : Writes b t₀ t₁ js t') : Writes b t₀ t (job :: js) t'

theorem Writes.entry_of_ne (h : b.Writes t₀ t js t')
    (hl : ∀ job ∈ js, l ≠ t.placeOf (b.descriptorPath job.element.name)) :
    t'.entry? l = t.entry? l := by
  induction h with
  | nil => rfl
  | @cons t t₁ t' job js text _ puts _ ih =>
    rw [List.forall_mem_cons] at hl
    rw [ih fun job' hjob' => ?_, puts.elsewhere l hl.1]
    rw [FileTree.placeOf_congr puts.current]
    exact hl.2 job' hjob'

theorem Writes.split {before after : List Job} (h : b.Writes t₀ t (before ++ job :: after) t') :
    ∃ text t₂ t₃, b.Describes t₀ job text ∧ b.Writes t₀ t before t₂ ∧
      t₂.Puts (b.descriptorPath job.element.name) text.toUTF8 t₃ ∧ b.Writes t₀ t₃ after t' := by
  induction before generalizing t with
  | nil =>
    cases h with
    | cons describes puts rest => exact ⟨_, _, _, describes, .nil, puts, rest⟩
  | cons first before ih =>
    cases h with
    | cons describes puts rest =>
      obtain ⟨text, t₂, t₃, hdescribes, hbefore, hputs, hafter⟩ := ih rest
      exact ⟨text, t₂, t₃, hdescribes, .cons describes puts hbefore, hputs, hafter⟩

theorem Writes.current (h : b.Writes t₀ t js t') : t'.current = t.current := by
  induction h with
  | nil => rfl
  | cons _ puts _ ih => rw [ih, puts.current]

theorem Writes.entry_last {before after : List Job}
    (h : b.Writes t₀ t (before ++ job :: after) t')
    (hlast : ∀ later ∈ after, t.placeOf (b.descriptorPath later.element.name) ≠
      t.placeOf (b.descriptorPath job.element.name))
    (hdescribes : b.Describes t₀ job text) :
    t'.entry? (t.placeOf (b.descriptorPath job.element.name)) = some (.file text.toUTF8) := by
  obtain ⟨text', t₂, t₃, hdescribes', hbefore, hputs, hafter⟩ := h.split
  obtain rfl := (describes_iff.1 hdescribes).trans (describes_iff.1 hdescribes').symm
  have hfile := hputs.file
  rw [FileTree.placeOf_congr hbefore.current] at hfile
  rw [hafter.entry_of_ne, hfile]
  intro later hlater
  rw [FileTree.placeOf_congr (hputs.current.trans hbefore.current)]
  exact (hlast later hlater).symm

def Writable (b : Batch) (t : FileTree) (job : Job) : Prop :=
  job.element.isConcreteClass = true ∧ t.Accepts (b.descriptorPath job.element.name)

instance (b : Batch) (t : FileTree) (job : Job) : Decidable (b.Writable t job) :=
  inferInstanceAs (Decidable (_ ∧ _))

def writtenJobs (b : Batch) (t : FileTree) (js : List Job) : List Job :=
  js.filter fun job => b.Writable t job

theorem writtenJobs_of_writable (h : b.Writable t job) (js : List Job) :
    b.writtenJobs t (job :: js) = job :: b.writtenJobs t js :=
  List.filter_cons_of_pos (decide_eq_true h)

theorem writtenJobs_of_not_writable (h : ¬ b.Writable t job) (js : List Job) :
    b.writtenJobs t (job :: js) = b.writtenJobs t js :=
  List.filter_cons_of_neg (by simpa using h)

theorem runJob_writable (h : b.Alike t₁ t) (job : Job) :
    (b.Writable t₁ job ∧ ∃ t', t.write (b.descriptorPath job.element.name)
        (b.descriptorText t job).toUTF8 = .ok t' ∧
      b.runJob t job = (.written (b.descriptorPath job.element.name), t')) ∨
    (¬ b.Writable t₁ job ∧ (b.runJob t job).1.written? = none ∧ (b.runJob t job).2 = t) := by
  rcases runJob_cases b t job with
    ⟨hkind, hrun⟩ | ⟨hkind, t', hwrite, hrun⟩ | ⟨-, cause, hwrite, hrun⟩
  · refine .inr ⟨fun hwritable => ?_, by rw [hrun]; rfl, by rw [hrun]⟩
    simp [hwritable.1] at hkind
  · -- no directory has come or gone since the start, so the path could be written there too
    have haccepts := (FileTree.write_eq_put.1 hwrite).1
    exact .inl ⟨⟨hkind, h.directories.accepts_iff.1 haccepts⟩, t', hwrite, hrun⟩
  · refine .inr ⟨fun hwritable => ?_, by rw [hrun]; rfl, by rw [hrun]⟩
    exact FileTree.not_accepts_of_write_error hwrite (h.directories.accepts_iff.2 hwritable.2)

theorem writes_runJobs (h : b.Alike t₁ t) (js : List Job) :
    b.Writes t₁ t (b.writtenJobs t₁ js) (b.runJobs t js).2 := by
  induction js generalizing t with
  | nil => exact .nil
  | cons job js ih =>
    have hrest := ih (h.trans (runJob_alike b t job))
    rw [runJobs_cons]
    rcases runJob_writable h job with ⟨hwritable, t₂, hwrite, hrun⟩ | ⟨hwritable, -, hsame⟩
    · rw [writtenJobs_of_writable hwritable]
      rw [hrun] at hrest ⊢
      exact .cons (describes_iff.2 (h.descriptorText job)) (FileTree.puts_of_write hwrite) hrest
    · rw [writtenJobs_of_not_writable hwritable]
      rwa [hsame] at hrest ⊢

theorem written_runJobs (h : b.Alike t₁ t) (js : List Job) :
    (b.runJobs t js).1.filterMap Outcome.written? =
      (b.writtenJobs t₁ js).map fun job => b.descriptorPath job.element.name := by
  induction js generalizing t with
  | nil => rfl
  | cons job js ih =>
    rw [runJobs_cons, List.filterMap_cons, ih (h.trans (runJob_alike b t job))]
    rcases runJob_writable h job with ⟨hwritable, t₂, -, hrun⟩ | ⟨hwritable, hnone, -⟩
    · rw [writtenJobs_of_writable hwritable, hrun]
      rfl
    · rw [writtenJobs_of_not_writable hwritable, hnone]

def results (b : Batch) (t : FileTree) (js : List Job) : List (Job × Outcome) :=
  js.zip (b.runJobs t js).1

theorem results_cons (b : Batch) (t : FileTree) (job : Job) (js : List Job) :
    b.results t (job :: js) =
      (job, (b.runJob t job).1) :: b.results (b.runJob t job).2 js := rfl

/-- A record that cannot be written when its turn comes. -/
def Fails (b : Batch) (t : FileTree) (js : List Job) (job : Job) : Prop :=
  ∃ outcome, (job, outcome) ∈ b.results t js ∧ outcome.failed?.isSome

instance (b : Batch) (t : FileTree) (js : List Job) (job : Job) : Decidable (b.Fails t js job) :=
  decidable_of_iff ((b.results t js).any fun row => row.1 = job && row.2.failed?.isSome) <| by
    simp [Fails, List.any_eq_true]

theorem Fails.refused (h : b.Alike t₁ t) (hfails : b.Fails t js job) :
    job.element.isConcreteClass = true ∧ ¬ t₁.Accepts (b.descriptorPath job.element.name) := by
  induction js generalizing t with
  | nil =>
    obtain ⟨outcome, hmem, -⟩ := hfails
    simp [results] at hmem
  | cons first js ih =>
    obtain ⟨outcome, hmem, hfailed⟩ := hfails
    rw [results_cons, List.mem_cons] at hmem
    rcases hmem with hfirst | hmem
    · obtain ⟨rfl, rfl⟩ := Prod.mk.inj hfirst
      rcases runJob_cases b t job with
        ⟨-, hrun⟩ | ⟨-, t₂, -, hrun⟩ | ⟨hkind, cause, hwrite, hrun⟩
      · simp [hrun, Outcome.failed?] at hfailed
      · simp [hrun, Outcome.failed?] at hfailed
      · -- no directory has come or gone since the start, so the path was refused there too
        have hrefused := FileTree.not_accepts_of_write_error hwrite
        exact ⟨hkind, mt h.directories.accepts_iff.2 hrefused⟩
    · exact ih (h.trans (runJob_alike b t first)) ⟨outcome, hmem, hfailed⟩

theorem Fails.fileOf (hfails : b.Fails t js job) : b.fileOf t job = none := by
  rw [Option.eq_none_iff_forall_not_mem]
  intro row hrow
  exact (hfails.refused .refl).2 (fileOf_eq_some_iff.1 hrow).2.1

theorem filterMap_outcomes {α : Type} {see : Outcome → Option α} (h : b.Alike t₁ t)
    (hsee : ∀ t' job, b.Alike t₁ t' → see (b.runJob t' job).1 = see (b.runJob t₁ job).1)
    (js : List Job) :
    (b.runJobs t js).1.filterMap see = js.filterMap fun job => see (b.runJob t₁ job).1 := by
  induction js generalizing t with
  | nil => rfl
  | cons job js ih =>
    rw [runJobs_cons, List.filterMap_cons, List.filterMap_cons, hsee t job h,
      ih (h.trans (runJob_alike b t job))]

theorem written?_runJob (b : Batch) (t : FileTree) (job : Job) :
    (b.runJob t job).1.written? =
      (b.fileOf t job).map fun _ => b.descriptorPath job.element.name := by
  rw [fileOf]
  rcases runJob_cases b t job with ⟨-, hrun⟩ | ⟨-, t', -, hrun⟩ | ⟨-, cause, -, hrun⟩ <;>
    rw [hrun] <;> rfl

theorem skipped?_runJob (b : Batch) (t : FileTree) (job : Job) :
    (b.runJob t job).1.skipped? =
      if job.element.isConcreteClass then none else some job.element.name := by
  rcases runJob_cases b t job with
    ⟨hkind, hrun⟩ | ⟨hkind, t', -, hrun⟩ | ⟨hkind, cause, -, hrun⟩ <;>
    rw [hrun, hkind] <;> rfl

/-- Elements that differ in that records which fail may be left out of the second. -/
structure DropsFailed (failing : Job → Prop) (e e' : Element) : Prop where
  rest : e' = { e with service := e'.service, dataSource := e'.dataSource }
  service : e'.service = e.service ∨
    e'.service = none ∧ ∀ own, e.service = some own → failing (.service e own)
  dataSource : e'.dataSource = e.dataSource ∨
    e'.dataSource = none ∧ ∀ r, e.dataSource = some r → failing (.dataSource e r)

theorem filterMap_of_forall₂ {α β : Type} {R : α → α → Prop} {see : α → Option β} {xs ys : List α}
    (h : List.Forall₂ R xs ys) (hsee : ∀ x y, R x y → see y = see x) :
    ys.filterMap see = xs.filterMap see := by
  induction h with
  | nil => rfl
  | cons hxy _ ih => rw [List.filterMap_cons, List.filterMap_cons, hsee _ _ hxy, ih]

structure SeesNoFailed {α : Type} (failing : Job → Prop) (see : Job → Option α) : Prop where
  service : ∀ e s d own, see (.service { e with service := s, dataSource := d } own) =
    see (.service e own)
  dataSource : ∀ e s d r, see (.dataSource { e with service := s, dataSource := d } r) =
    see (.dataSource e r)
  none : ∀ job, failing job → see job = none

theorem bind_of_dropped {ρ α : Type} {x x' : Option ρ} {f f' : ρ → Option α}
    (h : x' = x ∨ x' = none ∧ ∀ r, x = some r → f r = none) (hf : ∀ r, f' r = f r) :
    x'.bind f' = x.bind f := by
  rcases h with rfl | ⟨rfl, hnone⟩
  · rw [funext hf]
  · cases x with
    | none => rfl
    | some r => exact (hnone r rfl).symm

theorem SeesNoFailed.filterMap_jobs {α : Type} {failing : Job → Prop} {see : Job → Option α}
    (hsee : SeesNoFailed failing see) (h : List.Forall₂ (DropsFailed failing) es es') :
    (jobs es').filterMap see = (jobs es).filterMap see := by
  simp only [jobs, List.filterMap_append, List.filterMap_filterMap, Option.bind_map]
  congr 1
  · refine filterMap_of_forall₂ h fun e e' hdrop => bind_of_dropped ?_ fun own => ?_
    · exact hdrop.service.imp_right fun h => ⟨h.1, fun own hown => hsee.none _ (h.2 own hown)⟩
    · rw [hdrop.rest]
      exact hsee.service e _ _ own
  · refine filterMap_of_forall₂ h fun e e' hdrop => bind_of_dropped ?_ fun r => ?_
    · exact hdrop.dataSource.imp_right fun h => ⟨h.1, fun r hr => hsee.none _ (h.2 r hr)⟩
    · rw [hdrop.rest]
      exact hsee.dataSource e _ _ r

theorem seesNoFailed_fileOf (b : Batch) (t : FileTree) (js : List Job) :
    SeesNoFailed (b.Fails t js) (b.fileOf t) :=
  ⟨fun _ _ _ _ => rfl, fun _ _ _ _ => rfl, fun _ => Fails.fileOf⟩

theorem seesNoFailed_written (b : Batch) (t : FileTree) (js : List Job) :
    SeesNoFailed (b.Fails t js) fun job => (b.runJob t job).1.written? := by
  refine ⟨fun _ _ _ _ => rfl, fun _ _ _ _ => rfl, fun job hfails => ?_⟩
  rw [written?_runJob, hfails.fileOf]
  rfl

theorem seesNoFailed_skipped (b : Batch) (t : FileTree) (js : List Job) :
    SeesNoFailed (b.Fails t js) fun job => (b.runJob t job).1.skipped? := by
  refine ⟨fun _ _ _ _ => rfl, fun _ _ _ _ => rfl, fun job hfails => ?_⟩
  rw [skipped?_runJob, (hfails.refused .refl).1]
  rfl

theorem filterMap_written (b : Batch) (t : FileTree) (js : List Job) :
    (b.runJobs t js).1.filterMap Outcome.written? =
      js.filterMap fun job => (b.runJob t job).1.written? := by
  refine filterMap_outcomes .refl (fun t' job h => ?_) js
  rw [written?_runJob, written?_runJob, h.fileOf]

theorem filterMap_skipped (b : Batch) (t : FileTree) (js : List Job) :
    (b.runJobs t js).1.filterMap Outcome.skipped? =
      js.filterMap fun job => (b.runJob t job).1.skipped? := by
  refine filterMap_outcomes .refl (fun t' job _ => ?_) js
  rw [skipped?_runJob, skipped?_runJob]

/-- The tree and the report after the successful writes of a run, which started on `t`: each file
holds the text of the last descriptor that was put in it, and all else is as it was. -/
structure Applied (b : Batch) (t : FileTree) (js : List Job) (report : Report) (t' : FileTree) :
    Prop where
  accounts : b.Accounts t js report
  written : report.written = (b.writtenJobs t js).map fun job => b.descriptorPath job.element.name
  writes : b.Writes t t (b.writtenJobs t js) t'
  held : ∀ before job after text, b.writtenJobs t js = before ++ job :: after →
    (∀ later ∈ after, t.placeOf (b.descriptorPath later.element.name) ≠
      t.placeOf (b.descriptorPath job.element.name)) →
    b.Describes t job text → t'.read (b.descriptorPath job.element.name) = .ok text.toUTF8
  elsewhere : ∀ l, (∀ path ∈ report.written, l ≠ t.placeOf path) → t'.entry? l = t.entry? l

theorem applied_runJobs (b : Batch) (t : FileTree) (js : List Job) :
    b.Applied t js (.ofOutcomes (b.runJobs t js).1) (b.runJobs t js).2 := by
  have hwrites := writes_runJobs (b := b) (t := t) .refl js
  have hwritten := written_runJobs (b := b) (t := t) .refl js
  refine ⟨accounts_runJobs .refl js, hwritten, hwrites, ?_, fun l hl => ?_⟩
  · intro before job after text hjobs hlast hdescribes
    have hmem : job ∈ b.writtenJobs t js := by simp [hjobs]
    have hwritable : b.Writable t job := of_decide_eq_true (List.mem_filter.1 hmem).2
    rw [hjobs] at hwrites
    exact hwritable.2.read (runJobs_alike b t js).directories
      (hwrites.entry_last hlast hdescribes)
  · rw [Report.ofOutcomes, hwritten] at hl
    exact hwrites.entry_of_ne fun job hjob => hl _ (List.mem_map_of_mem hjob)

/-- The tree in the end is the one with the output root made and the successful writes applied in
order, those of services first. A run without some of the records that fail ends on the same tree,
and writes and skips the same. Trees have no links, and all in them may be read and written. -/
theorem run_applies_writes (hrun : b.run t es = (.ok report, t')) :
    ∃ t₁ js, t.makeDirectories b.outputRoot = (t₁, none) ∧ t.DirectoryMade b.outputRoot t₁ ∧
      js = (es.filterMap fun e => e.service.map (.service e)) ++
        es.filterMap (fun e => e.dataSource.map (.dataSource e)) ∧
      b.Applied t₁ js report t' ∧
      ∀ es', List.Forall₂ (DropsFailed (b.Fails t₁ js)) es es' →
        ∃ report', b.run t es' = (.ok report', t') ∧
          report'.written = report.written ∧ report'.skipped = report.skipped := by
  obtain ⟨t₁, hmade, rfl, rfl⟩ := run_eq_ok hrun
  refine ⟨t₁, jobs es, hmade, FileTree.directoryMade hmade, rfl, applied_runJobs b t₁ (jobs es),
    fun es' hdrops => ?_⟩
  have hfiles : b.files t₁ (jobs es') = b.files t₁ (jobs es) :=
    (seesNoFailed_fileOf b t₁ (jobs es)).filterMap_jobs hdrops
  refine ⟨_, by rw [run_of_made es' hmade, runJobs_tree, hfiles, runJobs_tree], ?_, ?_⟩
  · rw [Report.ofOutcomes, Report.ofOutcomes, filterMap_written, filterMap_written]
    exact (seesNoFailed_written b t₁ (jobs es)).filterMap_jobs hdrops
  · rw [Report.ofOutcomes, Report.ofOutcomes, filterMap_skipped, filterMap_skipped]
    exact (seesNoFailed_skipped b t₁ (jobs es)).filterMap_jobs hdrops

def blockedTree : FileTree where
  current := []
  entries := [(["out".toList, "a.B.json".toList], .directory), (["out".toList], .directory)]

def blocked : Element := { name := "a.B", service := some {}, dataSource := some {} }

def unblocked : List Element :=
  [{ name := "a.A", service := some {}, dataSource := some { version := "1" } },
    { name := "a.C", kind := .interfaceKind, service := some {} }]

theorem run_applies_writes_beside_directory :
    ∃ report t', fromScratch.run blockedTree (blocked :: unblocked) = (.ok report, t') ∧
      report.written = ["out/a.A.json", "out/a.A.json"] ∧
      (t'.readText "out/a.A.json").toOption =
        some "\x7b\n  \"name\": \"a.A\",\n  \"version\": \"1\",\n  \"allow\": \"any\"\n\x7d" ∧
      fromScratch.Applied (blockedTree.makeDirectories "out").1 (jobs (blocked :: unblocked))
        report t' ∧
      ∃ report', fromScratch.run blockedTree ({ blocked with service := none } :: unblocked) =
          (.ok report', t') ∧
        report'.written = report.written ∧ report'.skipped = report.skipped := by
  obtain ⟨report, t', hrun, hwritten⟩ := exists_run_of_written fromScratch blockedTree
    (blocked :: unblocked) ["out/a.A.json", "out/a.A.json"] (by decide +kernel)
  have htext : ((fromScratch.run blockedTree (blocked :: unblocked)).2.readText
      "out/a.A.json").toOption =
        some "\x7b\n  \"name\": \"a.A\",\n  \"version\": \"1\",\n  \"allow\": \"any\"\n\x7d" := by
    decide +kernel
  rw [hrun] at htext
  obtain ⟨t₁, js, hmade, -, hjs, happlied, hsame⟩ := run_applies_writes hrun
  obtain rfl : (blockedTree.makeDirectories "out").1 = t₁ := congrArg (·.1) hmade
  obtain rfl : jobs (blocked :: unblocked) = js := hjs.symm
  have hfails : fromScratch.Fails (blockedTree.makeDirectories "out").1
      (jobs (blocked :: unblocked)) (.service blocked {}) := by decide +kernel
  refine ⟨report, t', hrun, hwritten, htext, happlied,
    hsame _ (.cons ⟨rfl, .inr ⟨rfl, ?_⟩, .inl rfl⟩ ?_)⟩
  · intro own hown
    obtain rfl := Option.some.inj hown
    exact hfails
  · exact List.forall₂_same.2 fun _ _ => ⟨rfl, .inl rfl, .inl rfl⟩

end Batch
end ServiceMetadata
