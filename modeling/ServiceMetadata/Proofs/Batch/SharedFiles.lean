import ServiceMetadata.Proofs.Batch.Descriptors
import ServiceMetadata.Proofs.Manifest.Names
import ServiceMetadata.Proofs.Manifest.Superclasses

/-!
# Classes with two descriptors

The names of an accepted manifest are distinct, so no two classes share a file. A class with both a
service and a data source record, however, has one file for two descriptors: its path is reported as
written twice, and what the file holds in the end is the data source's. There is no other way in
which a descriptor is lost.
-/
namespace ServiceMetadata

def Report.failedNames (r : Report) : List String := r.failed.map (·.1)

namespace Batch

variable {b : Batch} {t t' : FileTree} {es : List Element} {e : Element} {report : Report}

theorem failedNames_ofOutcomes (outcomes : List Outcome) :
    (Report.ofOutcomes outcomes).failedNames = failedNames outcomes := by
  rw [Report.failedNames, Report.ofOutcomes, List.map_filterMap]
  rfl

theorem filterMap_filter_element {α : Type} (record : Element → Option α)
    (make : Element → α → Job) (hmake : ∀ e r, (make e r).element = e) (p : Element → Bool)
    (es : List Element) :
    (es.filterMap fun e => (record e).map (make e)).filter (fun job => p job.element) =
      (es.filter p).filterMap fun e => (record e).map (make e) := by
  induction es with
  | nil => rfl
  | cons e es ih =>
    cases hr : record e with
    | none => cases hp : p e <;> simp [hr, hp, ih]
    | some r => cases hp : p e <;> simp [hr, hp, hmake, ih]

theorem jobs_filter (p : Element → Bool) (es : List Element) :
    (jobs es).filter (fun job => p job.element) = jobs (es.filter p) := by
  rw [jobs, List.filter_append, jobs,
    filterMap_filter_element (·.service) .service (fun _ _ => rfl),
    filterMap_filter_element (·.dataSource) .dataSource (fun _ _ => rfl)]

theorem filter_name (hdistinct : (es.map (·.name)).Nodup) (he : e ∈ es)
    (hconcrete : e.isConcreteClass = true) :
    es.filter (fun x => x.isConcreteClass && x.name = e.name) = [e] := by
  induction es with
  | nil => simp at he
  | cons x es ih =>
    rw [List.map_cons, List.nodup_cons] at hdistinct
    rcases List.mem_cons.1 he with rfl | he
    · have hrest : es.filter (fun x => x.isConcreteClass && x.name = e.name) = [] := by
        rw [List.filter_eq_nil_iff]
        intro x hx hsame
        have hname : x.name = e.name := by simpa using (Bool.and_eq_true_iff.1 hsame).2
        exact hdistinct.1 (hname ▸ List.mem_map_of_mem hx)
      rw [List.filter_cons_of_pos (by simp [hconcrete]), hrest]
    · have hne : x.name ≠ e.name := fun h => hdistinct.1 (h ▸ List.mem_map_of_mem he)
      rw [List.filter_cons_of_neg (by simp [hne])]
      exact ih hdistinct.2 he

theorem due_eq (hdistinct : (es.map (·.name)).Nodup) (he : e ∈ es)
    (hconcrete : e.isConcreteClass = true) : (jobs es).filter (isDue e.name) = jobs [e] := by
  rw [← filter_name hdistinct he hconcrete, ← jobs_filter]
  rfl

theorem element_mem_of_mem_jobs {job : Job} (h : job ∈ jobs es) : job.element ∈ es := by
  rw [jobs, List.mem_append, List.mem_filterMap, List.mem_filterMap] at h
  rcases h with ⟨e, he, hjob⟩ | ⟨e, he, hjob⟩ <;>
    · obtain ⟨r, -, rfl⟩ := Option.map_eq_some_iff.1 hjob
      exact he

theorem length_jobs_le_two (e : Element) : (jobs [e]).length ≤ 2 := by
  cases hs : e.service <;> cases hd : e.dataSource <;> simp [jobs, hs, hd]

theorem length_jobs_le_one (h : e.service = none ∨ e.dataSource = none) :
    (jobs [e]).length ≤ 1 := by
  rcases h with h | h
  · cases hd : e.dataSource <;> simp [jobs, h, hd]
  · cases hs : e.service <;> simp [jobs, h, hs]

def Holds (b : Batch) (t : FileTree) (job : Job) : Prop :=
  t.read (b.descriptorPath job.element.name) = .ok (b.descriptorText t job).toUTF8

/-- No path was written twice, and every descriptor that was due and did not fail is in its file. -/
structure NothingLost (b : Batch) (es : List Element) (report : Report) (t : FileTree) : Prop where
  distinct : report.written.Nodup
  services : ∀ e ∈ es, e.isConcreteClass = true → e.name ∉ report.failedNames →
    ∀ own, e.service = some own → b.Holds t (.service e own)
  dataSources : ∀ e ∈ es, e.isConcreteClass = true → e.name ∉ report.failedNames →
    ∀ r, e.dataSource = some r → b.Holds t (.dataSource e r)

theorem run_eq_ok (h : b.run t es = (.ok report, t')) :
    ∃ t₁, t.makeDirectories b.outputRoot = (t₁, none) ∧
      report = .ofOutcomes (b.runJobs t₁ (jobs es)).1 ∧ t' = (b.runJobs t₁ (jobs es)).2 := by
  rcases hmade : t.makeDirectories b.outputRoot with ⟨t₁, _ | cause⟩
  · rw [run_of_made es hmade, Prod.mk.injEq] at h
    exact ⟨t₁, rfl, (Except.ok.inj h.1).symm, h.2.symm⟩
  · simp [run_of_not_made es hmade] at h

theorem exists_run_of_written (b : Batch) (t : FileTree) (es : List Element) (paths : List String)
    (h : (b.run t es).1.toOption.map (·.written) = some paths) :
    ∃ report t', b.run t es = (.ok report, t') ∧ report.written = paths := by
  rcases hrun : b.run t es with ⟨e | report, t'⟩
  · simp [hrun, Except.toOption] at h
  · exact ⟨report, t', rfl, by simpa [hrun, Except.toOption] using h⟩

section

variable (hdistinct : (es.map (·.name)).Nodup) (hnames : ∀ e ∈ es, '/' ∉ e.name.toList)
  (hrun : b.run t es = (.ok report, t'))
include hdistinct hnames hrun

theorem holds_last (he : e ∈ es) (hconcrete : e.isConcreteClass = true)
    (hok : e.name ∉ report.failedNames) {job : Job} (hlast : (jobs [e]).getLast? = some job) :
    b.Holds t' job := by
  obtain ⟨t₁, -, rfl, rfl⟩ := run_eq_ok hrun
  have hjs : PlainNames (jobs es) := fun j hj => hnames _ (element_mem_of_mem_jobs hj)
  have hjob : job.element = e :=
    List.mem_singleton.1 (element_mem_of_mem_jobs (List.mem_of_getLast? hlast))
  rw [failedNames_ofOutcomes] at hok
  rw [Holds, (runJobs_alike b t₁ (jobs es)).descriptorText, hjob]
  apply read_runJobs hjs (hnames e he) hok
  rw [due_eq hdistinct he hconcrete, hlast]

theorem count_written (he : e ∈ es) (hconcrete : e.isConcreteClass = true) :
    report.written.count (b.descriptorPath e.name) + report.failedNames.count e.name =
      (jobs [e]).length := by
  obtain ⟨t₁, -, rfl, rfl⟩ := run_eq_ok hrun
  have hjs : PlainNames (jobs es) := fun j hj => hnames _ (element_mem_of_mem_jobs hj)
  rw [failedNames_ofOutcomes, ← due_eq hdistinct he hconcrete]
  exact count_runJobs hjs (hnames e he)

theorem distinct_written
    (hone : ∀ e ∈ es, e.isConcreteClass = true → e.name ∉ report.failedNames →
      e.service = none ∨ e.dataSource = none) :
    report.written.Nodup := by
  rw [List.nodup_iff_count]
  intro path
  by_cases hmem : path ∈ report.written
  · obtain ⟨e, he, hconcrete, rfl⟩ : ∃ e ∈ es, e.isConcreteClass = true ∧
        path = b.descriptorPath e.name := by
      obtain ⟨t₁, -, rfl, -⟩ := run_eq_ok hrun
      obtain ⟨job, hjob, hconcrete, hpath⟩ := mem_writtenPaths hmem
      exact ⟨job.element, element_mem_of_mem_jobs hjob, hconcrete, hpath⟩
    have hcount := count_written hdistinct hnames hrun he hconcrete
    -- Of two records one may have failed, and then the other is written once.
    by_cases hok : e.name ∈ report.failedNames
    · have hfailed : 0 < report.failedNames.count e.name := List.count_pos_iff.2 hok
      have htwo := length_jobs_le_two e
      omega
    · have hle := length_jobs_le_one (hone e he hconcrete hok)
      omega
  · rw [List.count_eq_zero.2 hmem]
    exact Nat.zero_le 1

theorem one_record_of_distinct (hwritten : report.written.Nodup) (he : e ∈ es)
    (hconcrete : e.isConcreteClass = true) (hok : e.name ∉ report.failedNames) :
    e.service = none ∨ e.dataSource = none := by
  have hcount := count_written hdistinct hnames hrun he hconcrete
  have hone := List.nodup_iff_count.1 hwritten (b.descriptorPath e.name)
  rw [List.count_eq_zero.2 hok] at hcount
  cases hs : e.service with
  | none => exact .inl rfl
  | some own =>
    cases hd : e.dataSource with
    | none => exact .inr rfl
    | some r =>
      have htwo : (jobs [e]).length = 2 := by simp [jobs, hs, hd]
      omega

end

/-- Descriptors are lost just if some class has two of them, and then it is the service's that is
lost: that of a data source is always in its file, and so is that of a service without one. -/
theorem nothing_lost_iff {text : String} {m : Manifest} (b : Batch) {t t' : FileTree}
    {report : Report} (hparse : Manifest.parse text = .ok m)
    (hnames : ∀ d ∈ m.classes, '/' ∉ d.name.toList)
    (hrun : b.run t m.elements = (.ok report, t')) :
    (b.NothingLost m.elements report t' ↔
      ∀ e ∈ m.elements, e.isConcreteClass = true → e.name ∉ report.failedNames →
        e.service = none ∨ e.dataSource = none) ∧
      ∀ e ∈ m.elements, e.isConcreteClass = true → e.name ∉ report.failedNames →
        (∀ r, e.dataSource = some r → b.Holds t' (.dataSource e r)) ∧
          ∀ own, e.service = some own → e.dataSource = none → b.Holds t' (.service e own) := by
  have hdistinct : (m.elements.map (·.name)).Nodup := by
    rw [map_name_elements]
    exact parse_distinct hparse
  have hplain : ∀ e ∈ m.elements, '/' ∉ e.name.toList := by
    intro e he
    have hmem : e.name ∈ m.classes.map (·.name) :=
      map_name_elements m ▸ List.mem_map_of_mem he
    obtain ⟨d, hd, hname⟩ := List.mem_map.1 hmem
    exact hname ▸ hnames d hd
  have hdataSource : ∀ e ∈ m.elements, e.isConcreteClass = true → e.name ∉ report.failedNames →
      ∀ r, e.dataSource = some r → b.Holds t' (.dataSource e r) := by
    intro e he hconcrete hok r hr
    apply holds_last hdistinct hplain hrun he hconcrete hok
    simp [jobs, hr]
  have hservice : ∀ e ∈ m.elements, e.isConcreteClass = true → e.name ∉ report.failedNames →
      ∀ own, e.service = some own → e.dataSource = none → b.Holds t' (.service e own) := by
    intro e he hconcrete hok own hown hnone
    apply holds_last hdistinct hplain hrun he hconcrete hok
    simp [jobs, hown, hnone]
  refine ⟨⟨fun h e he hconcrete hok => ?_, fun hone => ?_⟩, fun e he hconcrete hok => ?_⟩
  · exact one_record_of_distinct hdistinct hplain hrun h.distinct he hconcrete hok
  · refine ⟨distinct_written hdistinct hplain hrun hone, fun e he hconcrete hok own hown => ?_,
      hdataSource⟩
    refine hservice e he hconcrete hok own hown ?_
    rcases hone e he hconcrete hok with hnone | hnone
    · simp [hnone] at hown
    · exact hnone
  · exact ⟨hdataSource e he hconcrete hok, hservice e he hconcrete hok⟩

def fromScratch : Batch := { vocabulary := .empty, outputRoot := "out", workingDirectory := "." }

def nothing : FileTree := { current := [], entries := [] }

def serviceAndDataSource : Manifest where
  classes := [{ name := "a.A", service := some {} }, { name := "a.B", dataSource := some {} }]

def serviceAndDataSourceText : String :=
  "\x7b\"classes\":[\x7b\"name\":\"a.A\",\"service\":\x7b\x7d\x7d," ++
    "\x7b\"name\":\"a.B\",\"data_source\":\x7b\x7d\x7d]\x7d"

theorem nothing_lost_of_two_classes :
    Manifest.parse serviceAndDataSourceText = .ok serviceAndDataSource ∧
      ∃ report t', fromScratch.run nothing serviceAndDataSource.elements = (.ok report, t') ∧
        report.written = ["out/a.A.json", "out/a.B.json"] ∧
        fromScratch.NothingLost serviceAndDataSource.elements report t' := by
  have hparse : Manifest.parse serviceAndDataSourceText = .ok serviceAndDataSource :=
    toOption_eq_some_iff.1 (by decide +kernel)
  have helements := elements_of_roots (m := serviceAndDataSource) (by decide)
  have hone : ∀ e ∈ serviceAndDataSource.elements, e.service = none ∨ e.dataSource = none := by
    rw [helements]
    decide
  obtain ⟨report, t', hrun, hwritten⟩ := exists_run_of_written fromScratch nothing
    serviceAndDataSource.elements ["out/a.A.json", "out/a.B.json"] (by rw [helements]; decide +kernel)
  refine ⟨hparse, report, t', hrun, hwritten, ?_⟩
  exact (nothing_lost_iff fromScratch hparse (by decide) hrun).1.2 fun e he _ _ => hone e he

def bothRecords : Manifest where
  classes := [{ name := "a.A", service := some {}, dataSource := some {} }]

def bothRecordsText : String :=
  "\x7b\"classes\":[\x7b\"name\":\"a.A\",\"service\":\x7b\x7d,\"data_source\":\x7b\x7d\x7d]\x7d"

/-- A class with both records is reported as written twice and clean, and its file is not the
service's. -/
theorem service_lost_of_both_records :
    Manifest.parse bothRecordsText = .ok bothRecords ∧
      ∃ report t', fromScratch.run nothing bothRecords.elements = (.ok report, t') ∧
        report.written = ["out/a.A.json", "out/a.A.json"] ∧ report.isClean = true ∧
        (∀ e ∈ bothRecords.elements, ∀ own, e.service = some own →
          ¬ fromScratch.Holds t' (.service e own)) ∧
        ¬ fromScratch.NothingLost bothRecords.elements report t' := by
  have helements := elements_of_roots (m := bothRecords) (by decide)
  obtain ⟨report, t', hrun, hwritten⟩ := exists_run_of_written fromScratch nothing
    bothRecords.elements ["out/a.A.json", "out/a.A.json"] (by rw [helements]; decide +kernel)
  have hclean : (fromScratch.run nothing bothRecords.elements).1.toOption.map (·.isClean) =
      some true := by
    rw [helements]
    decide +kernel
  -- The data source's descriptor is longer than the service's.
  have hlonger : ∀ e ∈ bothRecords.elements, ∀ own ∈ e.service,
      ((fromScratch.run nothing bothRecords.elements).2.read
          (fromScratch.descriptorPath e.name)).toOption.map (·.size) ≠
        some (fromScratch.descriptorText (fromScratch.run nothing bothRecords.elements).2
          (.service e own)).toUTF8.size := by
    rw [helements]
    decide +kernel
  rw [hrun] at hclean hlonger
  refine ⟨toOption_eq_some_iff.1 (by decide +kernel), report, t', hrun, hwritten,
    Option.some.inj hclean, fun e he own hown hholds => ?_, fun h => ?_⟩
  · exact hlonger e he own hown (congrArg (fun read => read.toOption.map ByteArray.size) hholds)
  · have hdistinct := h.distinct
    rw [hwritten] at hdistinct
    exact absurd hdistinct (by decide)

end Batch
end ServiceMetadata
