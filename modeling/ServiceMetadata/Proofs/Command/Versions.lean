import ServiceMetadata.Proofs.Batch.FinalTree
import ServiceMetadata.Proofs.Command.Generate
import ServiceMetadata.Proofs.Descriptor.RoundTrip

/-!
# The version that is told and the one that is published

Nothing that a batch makes or writes is looked at for a version, so asking for the version after a
batch gives what went into every descriptor whose record names none, wherever the descriptors went.
-/
namespace ServiceMetadata

def Job.kind : Job → DescriptorKind
  | .service _ _ => .service
  | .dataSource _ _ => .dataSource

def Job.namedVersion : Job → Option String
  | .service e own => (EffectiveMetadata.merge e.common own).version
  | .dataSource _ r => presentText r.version

theorem presentText_eq_none {s : String} : presentText s = none ↔ s = "" := by
  unfold presentText
  split <;> simp_all

namespace Batch

variable {b : Batch} {t : FileTree} {job : Job}

theorem gives_version_of_service (b : Batch) (t : FileTree) (e : Element) (own : ServiceRecord) :
    Json.Gives (b.descriptorText t (.service e own)) "version"
      ((b.project t).version .service (EffectiveMetadata.merge e.common own).version) :=
  ServiceDescriptor.shape_faithful.gives_print
    (f := .optionalText "version" (·.version) fun v r => { r with version := v })
    (by simp [ServiceDescriptor.shape]) rfl

theorem gives_version_of_dataSource (b : Batch) (t : FileTree) (e : Element)
    (r : DataSourceRecord) :
    Json.Gives (b.descriptorText t (.dataSource e r)) "version"
      ((b.project t).version .dataSource (some r.version)) :=
  DataSourceDescriptor.shape_faithful.gives_print
    (f := .optionalText "version" (·.version) fun v r => { r with version := v })
    (by simp [DataSourceDescriptor.shape]) rfl

theorem gives_version (h : job.namedVersion = none) :
    Json.Gives (b.descriptorText t job) "version" ((b.project t).version job.kind none) := by
  cases job with
  | service e own =>
    have hgives := gives_version_of_service b t e own
    rw [show (EffectiveMetadata.merge e.common own).version = none from h] at hgives
    exact hgives
  | dataSource e r =>
    have hgives := gives_version_of_dataSource b t e r
    have hnone : (some r.version).filter (· ≠ "") = none := by
      rw [presentText_eq_none.1 h]
      rfl
    rw [Project.version_of_filter_eq_none _ _ hnone] at hgives
    exact hgives

/-- What is put in the files of descriptors of a kind whose records name no version gives `version`,
in a run that starts on `t` and ends on `t'`. A file that no later descriptor goes to still holds
it. -/
def Publishes (b : Batch) (t : FileTree) (js : List Job) (t' : FileTree) (kind : DescriptorKind)
    (version : Option String) : Prop :=
  ∀ before job after, b.writtenJobs t js = before ++ job :: after →
    job.kind = kind → job.namedVersion = none →
    ∃ text, Json.Gives text "version" version ∧
      (∃ t₂ t₃, b.Writes t t before t₂ ∧
        t₂.Puts (b.descriptorPath job.element.name) text.toUTF8 t₃ ∧ b.Writes t t₃ after t') ∧
      ((∀ later ∈ after, t.placeOf (b.descriptorPath later.element.name) ≠
          t.placeOf (b.descriptorPath job.element.name)) →
        t'.read (b.descriptorPath job.element.name) = .ok text.toUTF8)

theorem gives_version_after (b : Batch) (t : FileTree) (js : List Job)
    (h : job.namedVersion = none) :
    Json.Gives (b.descriptorText t job) "version"
      ((b.project (b.runJobs t js).2).version job.kind none) := by
  rw [(runJobs_alike b t js).version]
  exact gives_version h

theorem Applied.publishes {js : List Job} {report : Report} {t' : FileTree}
    (h : b.Applied t js report t') (htree : t' = (b.runJobs t js).2) (kind : DescriptorKind) :
    b.Publishes t js t' kind ((b.project t').version kind none) := by
  intro before job after hjobs hkind hnone
  have hwrites := h.writes
  rw [hjobs] at hwrites
  obtain ⟨text, t₂, t₃, hdescribes, hbefore, hputs, hafter⟩ := hwrites.split
  refine ⟨text, ?_, ⟨t₂, t₃, hbefore, hputs, hafter⟩, fun hlast =>
    h.held before job after text hjobs hlast hdescribes⟩
  rw [htree, ← hkind, describes_iff.1 hdescribes]
  exact b.gives_version_after t js hnone

end Batch

namespace Command

variable {t t' : FileTree} {manifest out work : String} {vocab : Option String}
  {kind : DescriptorKind} {response : Response}

structure Runs (t : FileTree) (manifest out work : String) (vocab : Option String) (m : Manifest)
    (b : Batch) (t₁ : FileTree) (report : Report) (t' : FileTree) : Prop where
  manifest : ManifestIn t manifest m
  vocabulary : VocabularyGiven t vocab b.vocabulary
  outputRoot : b.outputRoot = out
  workingDirectory : b.workingDirectory = work
  made : t.makeDirectories out = (t₁, none)
  applied : b.Applied t₁ (jobs m.elements) report t'

theorem exists_runs (h : Generated t manifest out work vocab (response, t'))
    (hcode : response.exitCode = 0) :
    ∃ m b t₁ report, Runs t manifest out work vocab m b t₁ report t' ∧
      t' = (b.runJobs t₁ (jobs m.elements)).2 := by
  obtain ⟨m, v, report, hmanifest, hvocab, hbatch, -⟩ := h.of_exitCode hcode
  obtain ⟨t₁, hmade, rfl, rfl⟩ := Batch.run_eq_ok hbatch
  exact ⟨m, _, t₁, _, ⟨manifestIn_iff.2 hmanifest, vocabularyGiven_iff.2 hvocab, rfl, rfl, hmade,
    Batch.applied_runJobs _ t₁ _⟩, rfl⟩

/-- After descriptors have been generated, the command that tells a version tells the one that was
put into the file of each written descriptor whose records name none. Since trees have no links, no
descriptor's path leads to a file in which versions are looked up. -/
theorem version_tells_what_was_generated {args args' : List String}
    (hargs : Request.ofArguments args = .command (.generate manifest out work vocab))
    (hargs' : Request.ofArguments args' = .command (.version work kind))
    (hrun : (Request.ofArguments args).run t = (response, t')) (hcode : response.exitCode = 0) :
    ∃ m b t₁ report version, Runs t manifest out work vocab m b t₁ report t' ∧
      (Request.ofArguments args').run t' =
        ({ exitCode := 0, output := version.getD "unknown" ++ "\n", messages := [] }, t') ∧
      b.Publishes t₁ (jobs m.elements) t' kind version := by
  obtain ⟨m, b, t₁, report, hruns, htree⟩ := exists_runs (generated_of_run hargs hrun) hcode
  refine ⟨m, b, t₁, report, (b.project t').version kind none, hruns, ?_,
    hruns.applied.publishes htree kind⟩
  rw [hargs', ← hruns.workingDirectory]
  rfl

def oneServiceText : String :=
  "\x7b\"classes\":[\x7b\"name\":\"a.A\",\"service\":\x7b\x7d\x7d]\x7d"

def versionedPomText : String :=
  "<project xmlns=\"http://maven.apache.org/POM/4.0.0\"><version>1.2</version></project>"

def versionedWorkshop : FileTree where
  current := []
  entries :=
    [(["m.json".toList], .file oneServiceText.toUTF8),
      (["pom.xml".toList], .file versionedPomText.toUTF8)]

def besideArguments : List String := ["generate", "m.json", "-o", "VERSION"]

theorem version_beside_descriptors :
    ((Request.ofArguments besideArguments).run versionedWorkshop).1 =
        { exitCode := 0
          output := ""
          messages := ["wrote VERSION/a.A.json", "ok 1 written, 0 skipped, 0 failed"] } ∧
      (((Request.ofArguments besideArguments).run versionedWorkshop).2.readText
          "VERSION/a.A.json").toOption =
        some ("\x7b\n  \"name\": \"a.A\",\n  \"version\": \"1.2\"," ++
          "\n  \"allow\": \"http://vocab.lappsgrid.org/ns/allow#any\"\n\x7d") ∧
      ((Request.ofArguments ["version"]).run
        ((Request.ofArguments besideArguments).run versionedWorkshop).2).1.output = "1.2\n" ∧
      ∃ m b t₁ report,
        Runs versionedWorkshop "m.json" "VERSION" "." none m b t₁ report
          ((Request.ofArguments besideArguments).run versionedWorkshop).2 ∧
        b.Publishes t₁ (jobs m.elements)
          ((Request.ofArguments besideArguments).run versionedWorkshop).2 .service
          (some "1.2") := by
  have hargs : Request.ofArguments besideArguments =
      .command (.generate "m.json" "VERSION" "." none) := by decide +kernel
  have hargs' : Request.ofArguments ["version"] = .command (.version "." .service) := by
    decide +kernel
  have hwritten : ((Request.ofArguments besideArguments).run versionedWorkshop).1 =
      { exitCode := 0
        output := ""
        messages := ["wrote VERSION/a.A.json", "ok 1 written, 0 skipped, 0 failed"] } := by
    decide +kernel
  have htold : ((Request.ofArguments ["version"]).run
      ((Request.ofArguments besideArguments).run versionedWorkshop).2).1.output = "1.2\n" := by
    decide +kernel
  obtain ⟨m, b, t₁, report, version, hruns, hprinted, hgives⟩ :=
    version_tells_what_was_generated hargs hargs' (Prod.eta _).symm
      (congrArg Response.exitCode hwritten)
  have hversion : version.getD "unknown" = "1.2" := by
    rw [hprinted] at htold
    exact (String.append_left_inj "\n").1 htold
  refine ⟨hwritten, by decide +kernel, htold, m, b, t₁, report, hruns, ?_⟩
  cases version with
  | none => exact absurd hversion (by decide)
  | some v => exact hversion ▸ hgives

end Command
end ServiceMetadata
