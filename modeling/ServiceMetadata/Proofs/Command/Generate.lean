import ServiceMetadata.Proofs.Batch.SharedFiles
import ServiceMetadata.Proofs.Command.Reports

/-!
# Generating all or nothing

Before it writes anything, the command that generates descriptors reads the manifest, then the
vocabulary, and then makes the output root. What goes wrong first is what it reports, and no file
has been touched by then. Once these three are done it succeeds, whatever becomes of the classes.
-/
namespace ServiceMetadata

variable {t t' : FileTree} {path manifest out work : String} {vocab : Option String} {e : Error}
  {m : Manifest} {v : Vocabulary} {response : Response} {report : Report}

/-- Why a manifest cannot be had: its file cannot be read, is no manifest or is refused. -/
inductive ManifestFault (t : FileTree) (path : String) : Error → Prop
  | unreadable {cause : FileError} (h : t.readText path = .error cause) :
      ManifestFault t path (.file path cause)
  | unparsed {text : String} {cause : Json.ReadError} (hread : t.readText path = .ok text)
      (h : Manifest.shape.parse text = .error cause) : ManifestFault t path (.json cause)
  | invalid {text : String} {m : Manifest} {cause : ManifestError}
      (hread : t.readText path = .ok text) (hparse : Manifest.shape.parse text = .ok m)
      (h : m.check = .error cause) : ManifestFault t path (.manifest cause)

/-- Why a vocabulary file cannot be had: it is not there, is a directory or is refused. -/
inductive VocabularyFault (t : FileTree) (path : String) : Error → Prop
  | notFound {cause : FileError} (h : t.find path = .error cause) :
      VocabularyFault t path (.file path cause)
  | directory {l : Location} (h : t.find path = .ok (l, .directory)) :
      VocabularyFault t path (.jsonBytes .isDirectory)
  | invalid {l : Location} {bytes : ByteArray} {cause : Error}
      (hfind : t.find path = .ok (l, .file bytes)) (h : Vocabulary.ofBytes bytes = .error cause) :
      VocabularyFault t path cause

theorem manifestFault_iff : ManifestFault t path e ↔ Manifest.load t path = .error e := by
  constructor
  · intro h
    cases h with
    | unreadable h => rw [Manifest.load, h]
    | unparsed hread h => simp only [Manifest.load, hread, Manifest.parse, h]
    | invalid hread hparse h => simp only [Manifest.load, hread, Manifest.parse, hparse, h]
  · intro h
    unfold Manifest.load at h
    split at h
    · rename_i hread
      obtain rfl := Except.error.inj h
      exact .unreadable hread
    · rename_i text hread
      unfold Manifest.parse at h
      split at h
      · rename_i hparse
        obtain rfl := Except.error.inj h
        exact .unparsed hread hparse
      · rename_i m hparse
        split at h
        · rename_i hcheck
          obtain rfl := Except.error.inj h
          exact .invalid hread hparse hcheck
        · simp at h

theorem vocabularyFault_iff : VocabularyFault t path e ↔ Vocabulary.load t path = .error e := by
  constructor
  · intro h
    cases h with
    | notFound h => rw [Vocabulary.load, h]
    | directory h => rw [Vocabulary.load, h]
    | invalid hfind h => simp only [Vocabulary.load, hfind, h]
  · intro h
    unfold Vocabulary.load at h
    split at h
    · rename_i hfind
      obtain rfl := Except.error.inj h
      exact .notFound hfind
    · rename_i l hfind
      obtain rfl := Except.error.inj h
      exact .directory hfind
    · rename_i l bytes hfind
      exact .invalid hfind h

structure ManifestIn (t : FileTree) (path : String) (m : Manifest) : Prop where
  parsed : ∃ text, t.readText path = .ok text ∧ Manifest.shape.parse text = .ok m
  accepted : m.check = .ok ()

theorem manifestIn_iff : ManifestIn t path m ↔ Manifest.load t path = .ok m := by
  constructor
  · rintro ⟨⟨text, hread, hparse⟩, haccepted⟩
    simp only [Manifest.load, hread, Manifest.parse, hparse, haccepted]
  · intro h
    unfold Manifest.load at h
    split at h
    · simp at h
    · rename_i text hread
      unfold Manifest.parse at h
      split at h
      · simp at h
      · rename_i m' hparse
        split at h
        · simp at h
        · rename_i haccepted
          obtain rfl := Except.ok.inj h
          exact ⟨⟨text, hread, hparse⟩, haccepted⟩

/-- The standard vocabulary, extended by the one in a file if a file is given. -/
inductive VocabularyGiven (t : FileTree) : Option String → Vocabulary → Prop
  | standard : VocabularyGiven t none Vocabulary.standard
  | extended {path : String} {l : Location} {bytes : ByteArray} {v : Vocabulary}
      (hfind : t.find path = .ok (l, .file bytes)) (h : Vocabulary.ofBytes bytes = .ok v) :
      VocabularyGiven t (some path) (Vocabulary.standard.extend v)

theorem vocabularyGiven_iff :
    VocabularyGiven t vocab v ↔ Command.vocabularyWith t vocab = .ok v := by
  constructor
  · intro h
    cases h with
    | standard => rfl
    | extended hfind h => simp only [Command.vocabularyWith, Vocabulary.load, hfind, h]
  · intro h
    unfold Command.vocabularyWith at h
    split at h
    · obtain rfl := Except.ok.inj h
      exact .standard
    · rename_i path
      split at h
      · rename_i loaded hload
        obtain rfl := Except.ok.inj h
        unfold Vocabulary.load at hload
        split at hload
        · simp at hload
        · simp at hload
        · rename_i l bytes hfind
          exact .extended hfind hload
      · simp at h

/-- A line for every file written, then one for every class skipped, then one for every failure, and
last the numbers of all three. -/
def Report.Tells (r : Report) (lines : List String) : Prop :=
  lines = (r.written.map fun path => "wrote " ++ path) ++
    (r.skipped.map fun name => "skipped " ++ name ++ " (not a concrete class)") ++
    (r.failed.map fun failure => "failed " ++ failure.1 ++ ": " ++ failure.2.message) ++
    [(if r.failed = [] then "ok" else "done") ++ " " ++ toString r.written.length ++ " written, " ++
      toString r.skipped.length ++ " skipped, " ++ toString r.failed.length ++ " failed"]

/-- The command gave up, and says what it was doing and why it could not go on. -/
def Response.Reports (r : Response) (doing : String) (cause : Error) : Prop :=
  r = {
    exitCode := 1
    output := ""
    messages := ["Error: " ++ doing, "", "Caused by:", "    " ++ cause.message] }

namespace Command

theorem tells_reportLines (r : Report) : r.Tells (reportLines r) := by
  have hclean : (r.isClean = true) = (r.failed = []) := by rw [Report.isClean, List.isEmpty_iff]
  unfold Report.Tells reportLines summary
  simp only [hclean]

theorem vocabularyWith_eq_error :
    vocabularyWith t vocab = .error e ↔ ∃ path ∈ vocab, VocabularyFault t path e := by
  cases vocab with
  | none => simp [vocabularyWith]
  | some path =>
    have hfault : VocabularyFault t path e ↔ Vocabulary.load t path = .error e :=
      vocabularyFault_iff
    cases hload : Vocabulary.load t path with
    | error e' => simp [vocabularyWith, hfault, hload]
    | ok v => simp [vocabularyWith, hfault, hload]

inductive Generated (t : FileTree) (manifest out work : String) (vocab : Option String) :
    Response × FileTree → Prop
  | noManifest {e : Error} (fault : ManifestFault t manifest e) :
      Generated t manifest out work vocab (.aborted ("reading manifest " ++ manifest) e, t)
  | noVocabulary {m : Manifest} {path : String} {e : Error}
      (hmanifest : Manifest.load t manifest = .ok m) (given : path ∈ vocab)
      (fault : VocabularyFault t path e) :
      Generated t manifest out work vocab (.aborted ("loading vocabulary " ++ path) e, t)
  | noOutputRoot {m : Manifest} {v : Vocabulary} {cause : FileError}
      (hmanifest : Manifest.load t manifest = .ok m) (hvocab : vocabularyWith t vocab = .ok v)
      (fault : (t.makeDirectories out).2 = some cause) :
      Generated t manifest out work vocab
        (.aborted "metadata generation aborted" (.outputRoot out cause),
          (t.makeDirectories out).1)
  | done {m : Manifest} {v : Vocabulary} {report : Report} {t' : FileTree}
      (hmanifest : Manifest.load t manifest = .ok m) (hvocab : vocabularyWith t vocab = .ok v)
      (hmade : (t.makeDirectories out).2 = none)
      (hrun : ({ vocabulary := v, outputRoot := out, workingDirectory := work } : Batch).run t
        m.elements = (.ok report, t')) :
      Generated t manifest out work vocab
        ({ exitCode := 0, output := "", messages := reportLines report }, t')

theorem generated (t : FileTree) (manifest out work : String) (vocab : Option String) :
    Generated t manifest out work vocab (runGenerate t manifest out work vocab) := by
  unfold runGenerate
  cases hmanifest : Manifest.load t manifest with
  | error e => exact .noManifest (manifestFault_iff.2 hmanifest)
  | ok m =>
    cases hvocab : vocabularyWith t vocab with
    | error e =>
      obtain ⟨path, given, fault⟩ := vocabularyWith_eq_error.1 hvocab
      obtain rfl := Option.mem_def.1 given
      exact .noVocabulary hmanifest rfl fault
    | ok v =>
      let b : Batch := { vocabulary := v, outputRoot := out, workingDirectory := work }
      rcases Batch.run_cases b t m.elements with ⟨cause, hcause, hrun⟩ | ⟨hmade, hrun⟩
      · simp only [hrun, b]
        exact .noOutputRoot hmanifest hvocab hcause
      · simp only [b] at hrun
        simp only [hrun]
        exact .done hmanifest hvocab hmade hrun

theorem generated_of_run {args : List String}
    (hargs : Request.ofArguments args = .command (.generate manifest out work vocab))
    (hrun : (Request.ofArguments args).run t = (response, t')) :
    Generated t manifest out work vocab (response, t') := by
  rw [hargs] at hrun
  exact hrun ▸ generated t manifest out work vocab

theorem no_manifestFault (h : Manifest.load t manifest = .ok m) :
    ¬ ∃ e, ManifestFault t manifest e := by
  intro hfault
  obtain ⟨e, he⟩ := hfault
  simp [manifestFault_iff, h] at he

theorem no_vocabularyFault (h : vocabularyWith t vocab = .ok v) :
    ¬ ∃ path ∈ vocab, ∃ e, VocabularyFault t path e := by
  intro hfault
  obtain ⟨path, hpath, e, he⟩ := hfault
  simp [vocabularyWith_eq_error.2 ⟨path, hpath, he⟩] at h

section

variable (h : Generated t manifest out work vocab (response, t'))
include h

theorem Generated.fails_iff :
    response.exitCode ≠ 0 ↔
      (∃ e, ManifestFault t manifest e) ∨ (∃ path ∈ vocab, ∃ e, VocabularyFault t path e) ∨
        ∃ cause, (t.makeDirectories out).2 = some cause := by
  cases h with
  | noManifest fault => exact iff_of_true Nat.one_ne_zero (.inl ⟨_, fault⟩)
  | noVocabulary _ given fault =>
    exact iff_of_true Nat.one_ne_zero (.inr (.inl ⟨_, given, _, fault⟩))
  | noOutputRoot _ _ fault => exact iff_of_true Nat.one_ne_zero (.inr (.inr ⟨_, fault⟩))
  | done hmanifest hvocab hmade _ =>
    refine iff_of_false (not_not_intro rfl) fun hfault => ?_
    rcases hfault with hfault | hfault | ⟨cause, hcause⟩
    · exact no_manifestFault hmanifest hfault
    · exact no_vocabularyFault hvocab hfault
    · simp [hmade] at hcause

theorem Generated.of_manifestFault (hfault : ManifestFault t manifest e) :
    response = .aborted ("reading manifest " ++ manifest) e ∧ t' = t := by
  cases h with
  | noManifest fault =>
    have hsame := (manifestFault_iff.1 fault).symm.trans (manifestFault_iff.1 hfault)
    rw [Except.error.inj hsame]
    exact ⟨rfl, rfl⟩
  | noVocabulary hmanifest _ _ => exact absurd ⟨e, hfault⟩ (no_manifestFault hmanifest)
  | noOutputRoot hmanifest _ _ => exact absurd ⟨e, hfault⟩ (no_manifestFault hmanifest)
  | done hmanifest _ _ _ => exact absurd ⟨e, hfault⟩ (no_manifestFault hmanifest)

theorem Generated.of_vocabularyFault (hmanifest : ¬ ∃ e, ManifestFault t manifest e)
    (hpath : path ∈ vocab) (hfault : VocabularyFault t path e) :
    response = .aborted ("loading vocabulary " ++ path) e ∧ t' = t := by
  cases h with
  | noManifest fault => exact absurd ⟨_, fault⟩ hmanifest
  | noVocabulary _ given fault =>
    obtain rfl := Option.some.inj (given.symm.trans hpath)
    have hsame := (vocabularyFault_iff.1 fault).symm.trans (vocabularyFault_iff.1 hfault)
    rw [Except.error.inj hsame]
    exact ⟨rfl, rfl⟩
  | noOutputRoot _ hvocab _ => exact absurd ⟨path, hpath, e, hfault⟩ (no_vocabularyFault hvocab)
  | done _ hvocab _ _ => exact absurd ⟨path, hpath, e, hfault⟩ (no_vocabularyFault hvocab)

theorem Generated.of_outputRootFault {cause : FileError}
    (hmanifest : ¬ ∃ e, ManifestFault t manifest e)
    (hvocab : ¬ ∃ path ∈ vocab, ∃ e, VocabularyFault t path e)
    (hcause : (t.makeDirectories out).2 = some cause) :
    response = .aborted "metadata generation aborted" (.outputRoot out cause) ∧
      ∀ l bytes, t'.entry? l = some (.file bytes) ↔ t.entry? l = some (.file bytes) := by
  cases h with
  | noManifest fault => exact absurd ⟨_, fault⟩ hmanifest
  | noVocabulary _ given fault => exact absurd ⟨_, given, _, fault⟩ hvocab
  | noOutputRoot _ _ fault =>
    obtain rfl := Option.some.inj (fault.symm.trans hcause)
    exact ⟨rfl, fun l => (FileTree.makeDirectories_adds t out).file_iff⟩
  | done _ _ hmade _ => simp [hmade] at hcause

theorem Generated.of_exitCode (hcode : response.exitCode = 0) :
    ∃ m v report, Manifest.load t manifest = .ok m ∧ vocabularyWith t vocab = .ok v ∧
      ({ vocabulary := v, outputRoot := out, workingDirectory := work } : Batch).run t m.elements =
        (.ok report, t') ∧
      response.messages = reportLines report := by
  cases h with
  | noManifest => exact absurd hcode Nat.one_ne_zero
  | noVocabulary => exact absurd hcode Nat.one_ne_zero
  | noOutputRoot => exact absurd hcode Nat.one_ne_zero
  | done hmanifest hvocab _ hrun => exact ⟨_, _, _, hmanifest, hvocab, hrun, rfl⟩

end

theorem linesOf_reportLines (b : Batch) (hrun : b.run t m.elements = (.ok report, t'))
    (hroot : IsLine b.outputRoot) (hnames : ∀ d ∈ m.classes, IsLine d.name) :
    linesOf (String.join ((reportLines report).map (· ++ "\n"))) = reportLines report := by
  have hjobs : ∀ job ∈ jobs m.elements, IsLine job.element.name := by
    intro job hjob
    have hmem := List.mem_map_of_mem (f := (·.name)) (Batch.element_mem_of_mem_jobs hjob)
    rw [map_name_elements] at hmem
    obtain ⟨d, hd, hname⟩ := List.mem_map.1 hmem
    exact hname ▸ hnames d hd
  obtain ⟨t₁, -, rfl, -⟩ := Batch.run_eq_ok hrun
  have haccounts : b.Accounts t₁ (jobs m.elements) _ := Batch.accounts_runJobs .refl _
  exact linesOf_join fun line => isLine_of_mem_reportLines (haccounts.ofLines hroot hjobs)

structure AllOrNothing (t : FileTree) (manifest out work : String) (vocab : Option String)
    (response : Response) (t' : FileTree) : Prop where
  fails_iff : response.exitCode ≠ 0 ↔
    (∃ e, ManifestFault t manifest e) ∨ (∃ path ∈ vocab, ∃ e, VocabularyFault t path e) ∨
      ∃ cause, (t.makeDirectories out).2 = some cause
  noManifest : ∀ e, ManifestFault t manifest e →
    response.Reports ("reading manifest " ++ manifest) e ∧ t' = t
  noVocabulary : (¬ ∃ e, ManifestFault t manifest e) →
    ∀ path ∈ vocab, ∀ e, VocabularyFault t path e →
      response.Reports ("loading vocabulary " ++ path) e ∧ t' = t
  noOutputRoot : (¬ ∃ e, ManifestFault t manifest e) →
    (¬ ∃ path ∈ vocab, ∃ e, VocabularyFault t path e) →
      ∀ cause, (t.makeDirectories out).2 = some cause →
        response.Reports "metadata generation aborted" (.outputRoot out cause) ∧
          ∀ l bytes, t'.entry? l = some (.file bytes) ↔ t.entry? l = some (.file bytes)
  done : response.exitCode = 0 →
    ∃ m v report, ManifestIn t manifest m ∧ VocabularyGiven t vocab v ∧
      ({ vocabulary := v, outputRoot := out, workingDirectory := work } : Batch).run t m.elements =
        (.ok report, t') ∧
      report.Tells response.messages ∧
      (IsLine out → (∀ d ∈ m.classes, IsLine d.name) →
        report.Tells (linesOf response.errorText))

def threeClassesText : String :=
  "\x7b\"classes\":[\x7b\"name\":\"a.A\",\"service\":\x7b\"license\":\"mit\"\x7d\x7d," ++
    "\x7b\"name\":\"b/B\",\"data_source\":\x7b\x7d\x7d," ++
    "\x7b\"name\":\"a.C\",\"kind\":\"interface\",\"service\":\x7b\x7d\x7d]\x7d"

def workshop : FileTree where
  current := []
  entries :=
    [(["m.json".toList], .file threeClassesText.toUTF8),
      (["v.json".toList], .file "\x7b\"any\":\"http://x/any\"\x7d".toUTF8)]

def generateArguments : List String := ["generate", "m.json", "-o", "out", "--vocab", "v.json"]

end Command
end ServiceMetadata
