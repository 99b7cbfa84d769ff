import ServiceMetadata.Batch
import ServiceMetadata.Proofs.FileTree.Places
import ServiceMetadata.Proofs.Versions

/-!
# What a batch leaves behind

Descriptors go to files named after their classes. Writing them changes no version, so the text of a
descriptor is the same at any time of the run. A class with both a service and a data source record
has one file for two descriptors, and the data source's, written later, takes the place of the
service's; this is the only way in which a descriptor is lost.
-/
namespace ServiceMetadata

theorem isFileName_json {name : String} (h : '/' ∉ name.toList) :
    Path.IsFileName (name ++ ".json") := by
  have hlen : 5 ≤ (name ++ ".json").toList.length := by simp
  refine ⟨⟨fun hempty => ?_, ?_⟩, fun hhere => ?_, fun habove => ?_⟩
  · simp [hempty] at hlen
  · simpa using h
  · simp [hhere, Path.here] at hlen
  · simp [habove, Path.above] at hlen

theorem json_inj {name name' : String} (h : name ++ ".json" = name' ++ ".json") :
    name = name' := by
  have hlist := congrArg String.toList h
  rw [String.toList_append, String.toList_append] at hlist
  exact String.toList_inj.1 (List.append_cancel_right hlist)

theorem exists_names_json (name : String) :
    ∃ parent last, Path.names (name ++ ".json") = parent ++ [last ++ ['.', 'j', 's', 'o', 'n']] := by
  obtain ⟨parent, last, hsplit⟩ :=
    Path.splitSlash_append_name name.toList (x := ['.', 'j', 's', 'o', 'n']) (by decide)
  exact ⟨parent.filter (· ≠ []), last, by simp [Path.names, hsplit]⟩

theorem plain_json (last : Path.Name) :
    last ++ ['.', 'j', 's', 'o', 'n'] ≠ Path.here ∧
      last ++ ['.', 'j', 's', 'o', 'n'] ≠ Path.above := by
  have hlen : 5 ≤ (last ++ ['.', 'j', 's', 'o', 'n']).length := by simp
  constructor
  · intro hhere
    rw [hhere] at hlen
    exact absurd hlen (by decide)
  · intro habove
    rw [habove] at hlen
    exact absurd hlen (by decide)

theorem endsInFileName_json (name : String) : Path.EndsInFileName (name ++ ".json") := by
  obtain ⟨parent, last, hnames⟩ := exists_names_json name
  exact ⟨parent, _, hnames, plain_json last⟩

theorem exists_placeOf_pathOf (t : FileTree) (root name : String) :
    ∃ above last, t.placeOf (Batch.pathOf root name) = above ++ [last ++ ['.', 'j', 's', 'o', 'n']] := by
  obtain ⟨parent, last, hnames⟩ := exists_names_json name
  rw [Batch.pathOf, FileTree.placeOf_join, hnames]
  split
  · exact ⟨_, last, Path.lead_concat _ _ (plain_json last).1 (plain_json last).2⟩
  · exact ⟨_, last, Path.lead_concat _ _ (plain_json last).1 (plain_json last).2⟩

theorem placeOf_ne_pathOf (t : FileTree) (dir root name : String) {file : String}
    (hfile : Path.IsFileName file) (hlast : file.toList.getLast? ≠ some 'n') :
    t.placeOf (Path.join dir file) ≠ t.placeOf (Batch.pathOf root name) := by
  obtain ⟨above, last, hplace⟩ := exists_placeOf_pathOf t root name
  rw [FileTree.placeOf_join_name t dir hfile, hplace]
  intro h
  have hname : file.toList = last ++ ['.', 'j', 's', 'o', 'n'] :=
    List.singleton_inj.1 (List.append_inj' h rfl).2
  rw [hname] at hlast
  simp at hlast

namespace Project

variable {t t' : FileTree} {dir root name : String} {bytes : ByteArray}

/-- No descriptor is a file in which versions are looked up. -/
theorem version_write (h : t.write (Batch.pathOf root name) bytes = .ok t')
    (kind : DescriptorKind) (explicit : Option String) :
    (Project.mk t' dir).version kind explicit = (Project.mk t dir).version kind explicit := by
  have hversionFile : t.placeOf (versionPath dir) ≠ t.placeOf (Batch.pathOf root name) :=
    placeOf_ne_pathOf t dir root name (by decide) (by decide)
  have hpomFile : t.placeOf (pomPath dir) ≠ t.placeOf (Batch.pathOf root name) :=
    placeOf_ne_pathOf t dir root name (by decide) (by decide)
  have hline : (t'.read (versionPath dir)).toOption = (t.read (versionPath dir)).toOption :=
    toOption_congr fun _ => FileTree.read_write_of_ne h hversionFile
  have hpom : (t'.read (pomPath dir)).toOption = (t.read (pomPath dir)).toOption :=
    toOption_congr fun _ => FileTree.read_write_of_ne h hpomFile
  have hfind : (t'.find (pomPath dir)).toOption = (t.find (pomPath dir)).toOption :=
    toOption_congr fun _ => FileTree.find_write_of_ne h hpomFile
  simp only [version, versionLine_eq, versionFromPom_eq, hline, hpom, hfind]

end Project

namespace Batch

variable {b : Batch} {t : FileTree} {job : Job} {js : List Job} {name : String}

theorem runJob_of_skipped (hkind : job.element.isConcreteClass = false) :
    b.runJob t job = (.skipped job.element.name, t) := by
  simp only [runJob, hkind, Bool.false_eq_true, if_false]

theorem runJob_of_ok {t' : FileTree} (hkind : job.element.isConcreteClass = true)
    (h : t.write (b.descriptorPath job.element.name) (b.descriptorText t job).toUTF8 = .ok t') :
    b.runJob t job = (.written (b.descriptorPath job.element.name), t') := by
  simp only [runJob, hkind, h, if_true]

theorem runJob_of_error {cause : FileError} (hkind : job.element.isConcreteClass = true)
    (h : t.write (b.descriptorPath job.element.name) (b.descriptorText t job).toUTF8 =
      .error cause) :
    b.runJob t job =
      (.failed job.element.name (.file (b.descriptorPath job.element.name) cause), t) := by
  simp only [runJob, hkind, h, if_true]

theorem runJob_cases (b : Batch) (t : FileTree) (job : Job) :
    (job.element.isConcreteClass = false ∧
      b.runJob t job = (.skipped job.element.name, t)) ∨
    (job.element.isConcreteClass = true ∧ ∃ t',
      t.write (b.descriptorPath job.element.name) (b.descriptorText t job).toUTF8 = .ok t' ∧
      b.runJob t job = (.written (b.descriptorPath job.element.name), t')) ∨
    (job.element.isConcreteClass = true ∧ ∃ cause,
      t.write (b.descriptorPath job.element.name) (b.descriptorText t job).toUTF8 =
        .error cause ∧
      b.runJob t job =
        (.failed job.element.name (.file (b.descriptorPath job.element.name) cause), t)) := by
  cases hkind : job.element.isConcreteClass with
  | false => exact .inl ⟨rfl, runJob_of_skipped hkind⟩
  | true =>
    right
    cases hwrite : t.write (b.descriptorPath job.element.name) (b.descriptorText t job).toUTF8 with
    | ok t' => exact .inl ⟨rfl, t', rfl, runJob_of_ok hkind hwrite⟩
    | error cause => exact .inr ⟨rfl, cause, rfl, runJob_of_error hkind hwrite⟩

theorem run_of_made {t₁ : FileTree} (es : List Element)
    (h : t.makeDirectories b.outputRoot = (t₁, none)) :
    b.run t es = (.ok (.ofOutcomes (b.runJobs t₁ (jobs es)).1), (b.runJobs t₁ (jobs es)).2) := by
  rw [run, h]

theorem run_of_not_made {t₁ : FileTree} {cause : FileError} (es : List Element)
    (h : t.makeDirectories b.outputRoot = (t₁, some cause)) :
    b.run t es = (.error (.outputRoot b.outputRoot cause), t₁) := by
  rw [run, h]

theorem run_cases (b : Batch) (t : FileTree) (es : List Element) :
    (∃ cause, (t.makeDirectories b.outputRoot).2 = some cause ∧
      b.run t es =
        (.error (.outputRoot b.outputRoot cause), (t.makeDirectories b.outputRoot).1)) ∨
    ((t.makeDirectories b.outputRoot).2 = none ∧
      b.run t es =
        (.ok (.ofOutcomes (b.runJobs (t.makeDirectories b.outputRoot).1 (jobs es)).1),
          (b.runJobs (t.makeDirectories b.outputRoot).1 (jobs es)).2)) := by
  rcases h : t.makeDirectories b.outputRoot with ⟨t₁, _ | cause⟩
  · exact .inr ⟨rfl, run_of_made es h⟩
  · exact .inl ⟨cause, rfl, run_of_not_made es h⟩

theorem runJobs_cons (b : Batch) (t : FileTree) (job : Job) (js : List Job) :
    b.runJobs t (job :: js) =
      ((b.runJob t job).1 :: (b.runJobs (b.runJob t job).2 js).1,
        (b.runJobs (b.runJob t job).2 js).2) := rfl

def PlainNames (js : List Job) : Prop := ∀ job ∈ js, '/' ∉ job.element.name.toList

/-- Trees that a batch cannot tell apart: the same paths can be written, and the versions that are
looked up are the same. -/
structure Alike (b : Batch) (t t' : FileTree) : Prop where
  directories : FileTree.SameDirectories t t'
  version : ∀ kind explicit, (b.project t').version kind explicit =
    (b.project t).version kind explicit

theorem Alike.refl : b.Alike t t := ⟨.refl, fun _ _ => rfl⟩

theorem Alike.trans {t₁ t₂ : FileTree} (h : b.Alike t t₁) (h' : b.Alike t₁ t₂) : b.Alike t t₂ :=
  ⟨h.directories.trans h'.directories, fun kind explicit =>
    (h'.version kind explicit).trans (h.version kind explicit)⟩

theorem Alike.descriptorText {t' : FileTree} (h : b.Alike t t') (job : Job) :
    b.descriptorText t' job = b.descriptorText t job := by
  cases job with
  | service e own => simp only [Batch.descriptorText, ServiceDescriptor.build, h.version]
  | dataSource e r => simp only [Batch.descriptorText, DataSourceDescriptor.build, h.version]

theorem runJob_alike (b : Batch) (t : FileTree) (job : Job) : b.Alike t (b.runJob t job).2 := by
  rcases runJob_cases b t job with ⟨-, h⟩ | ⟨-, t', hwrite, h⟩ | ⟨-, cause, -, h⟩
  · rw [h]
    exact .refl
  · rw [h]
    exact ⟨FileTree.write_sameDirectories hwrite, Project.version_write hwrite⟩
  · rw [h]
    exact .refl

theorem runJobs_alike (b : Batch) (t : FileTree) (js : List Job) :
    b.Alike t (b.runJobs t js).2 := by
  induction js generalizing t with
  | nil => exact .refl
  | cons job js ih =>
    rw [runJobs_cons]
    exact (runJob_alike b t job).trans (ih _)

def isDue (name : String) (job : Job) : Bool :=
  job.element.isConcreteClass && job.element.name = name

def writtenPaths (outcomes : List Outcome) : List String := outcomes.filterMap Outcome.written?

def failedNames (outcomes : List Outcome) : List String :=
  outcomes.filterMap fun o => o.failed?.map (·.1)

theorem writtenPaths_cons (o : Outcome) (os : List Outcome) :
    writtenPaths (o :: os) = writtenPaths [o] ++ writtenPaths os := by
  rw [writtenPaths, writtenPaths, writtenPaths, ← List.filterMap_append]
  rfl

theorem failedNames_cons (o : Outcome) (os : List Outcome) :
    failedNames (o :: os) = failedNames [o] ++ failedNames os := by
  rw [failedNames, failedNames, failedNames, ← List.filterMap_append]
  rfl

@[simp] theorem writtenPaths_skipped (x : String) : writtenPaths [.skipped x] = [] := rfl

@[simp] theorem writtenPaths_written (path : String) : writtenPaths [.written path] = [path] := rfl

@[simp] theorem writtenPaths_failed (x : String) (cause : Error) :
    writtenPaths [.failed x cause] = [] := rfl

@[simp] theorem failedNames_skipped (x : String) : failedNames [.skipped x] = [] := rfl

@[simp] theorem failedNames_written (path : String) : failedNames [.written path] = [] := rfl

@[simp] theorem failedNames_failed (x : String) (cause : Error) :
    failedNames [.failed x cause] = [x] := rfl

theorem descriptorPath_inj (b : Batch) {name' : String} (hname : '/' ∉ name.toList)
    (hname' : '/' ∉ name'.toList) (h : b.descriptorPath name = b.descriptorPath name') :
    name = name' :=
  json_inj (Path.join_inj b.outputRoot (isFileName_json hname).1 (isFileName_json hname').1 h)

theorem placeOf_descriptorPath_ne (b : Batch) {name' : String} (hname : '/' ∉ name.toList)
    (hname' : '/' ∉ name'.toList) (hne : name ≠ name') :
    t.placeOf (b.descriptorPath name) ≠ t.placeOf (b.descriptorPath name') := by
  rw [descriptorPath, pathOf, FileTree.placeOf_join_name t _ (isFileName_json hname),
    descriptorPath, pathOf, FileTree.placeOf_join_name t _ (isFileName_json hname')]
  intro h
  have hlist := List.singleton_inj.1 (List.append_cancel_left h)
  exact hne (json_inj (String.toList_inj.1 hlist))

theorem read_runJob_of_not_due {bytes : ByteArray} (hjob : '/' ∉ job.element.name.toList)
    (hname : '/' ∉ name.toList) (hdue : isDue name job = false)
    (h : t.read (b.descriptorPath name) = .ok bytes) :
    (b.runJob t job).2.read (b.descriptorPath name) = .ok bytes := by
  rcases runJob_cases b t job with ⟨-, hrun⟩ | ⟨hconcrete, t', hwrite, hrun⟩ | ⟨-, cause, -, hrun⟩
  · rw [hrun]
    exact h
  · have hne : job.element.name ≠ name := by simpa [isDue, hconcrete] using hdue
    rw [hrun]
    exact (FileTree.read_write_of_ne hwrite (placeOf_descriptorPath_ne b hname hjob hne.symm)).2 h
  · rw [hrun]
    exact h

theorem read_runJobs_of_not_due {bytes : ByteArray} (hjs : PlainNames js)
    (hname : '/' ∉ name.toList) (hdue : ∀ job ∈ js, isDue name job = false)
    (h : t.read (b.descriptorPath name) = .ok bytes) :
    (b.runJobs t js).2.read (b.descriptorPath name) = .ok bytes := by
  induction js generalizing t with
  | nil => exact h
  | cons job js ih =>
    rw [runJobs_cons]
    apply ih (fun j hj => hjs j (List.mem_cons_of_mem _ hj))
      (fun j hj => hdue j (List.mem_cons_of_mem _ hj))
    exact read_runJob_of_not_due (hjs job List.mem_cons_self) hname
      (hdue job List.mem_cons_self) h

theorem read_runJob_of_due (hname : '/' ∉ name.toList) (hdue : isDue name job = true)
    (hok : name ∉ failedNames [(b.runJob t job).1]) :
    (b.runJob t job).2.read (b.descriptorPath name) = .ok (b.descriptorText t job).toUTF8 := by
  obtain ⟨hconcrete, rfl⟩ : job.element.isConcreteClass = true ∧ job.element.name = name := by
    simpa [isDue] using hdue
  rcases runJob_cases b t job with ⟨hskip, -⟩ | ⟨-, t', hwrite, hrun⟩ | ⟨-, cause, -, hrun⟩
  · simp [hskip] at hconcrete
  · rw [hrun]
    exact FileTree.read_write hwrite
  · simp [hrun] at hok

theorem read_runJobs (hjs : PlainNames js) (hname : '/' ∉ name.toList)
    (hok : name ∉ failedNames (b.runJobs t js).1)
    (hlast : (js.filter (isDue name)).getLast? = some job) :
    (b.runJobs t js).2.read (b.descriptorPath name) = .ok (b.descriptorText t job).toUTF8 := by
  induction js generalizing t with
  | nil => simp at hlast
  | cons first js ih =>
    have hfirst : '/' ∉ first.element.name.toList := hjs first List.mem_cons_self
    have hrest : PlainNames js := fun j hj => hjs j (List.mem_cons_of_mem _ hj)
    rw [runJobs_cons, failedNames_cons, List.mem_append, not_or] at hok
    rw [runJobs_cons]
    -- Either a later record decides, or the first is the only one that is due.
    cases hlast' : (js.filter (isDue name)).getLast? with
    | some job' =>
      have hsame : job' = job := by
        rw [List.filter_cons] at hlast
        split at hlast
        · simpa [List.getLast?_cons, hlast'] using hlast
        · exact Option.some.inj (hlast'.symm.trans hlast)
      subst hsame
      rw [← (runJob_alike b t first).descriptorText]
      exact ih hrest hok.2 hlast'
    | none =>
      have hnone : js.filter (isDue name) = [] := List.getLast?_eq_none_iff.1 hlast'
      obtain ⟨hdue, rfl⟩ : isDue name first = true ∧ first = job := by
        rw [List.filter_cons, hnone] at hlast
        split at hlast
        · rename_i hdue
          exact ⟨hdue, by simpa using hlast⟩
        · simp at hlast
      apply read_runJobs_of_not_due hrest hname
      · intro j hj
        simpa using List.filter_eq_nil_iff.1 hnone j hj
      · exact read_runJob_of_due hname hdue hok.1

theorem count_runJob (t : FileTree) (hjob : '/' ∉ job.element.name.toList)
    (hname : '/' ∉ name.toList) :
    (writtenPaths [(b.runJob t job).1]).count (b.descriptorPath name) +
        (failedNames [(b.runJob t job).1]).count name =
      if isDue name job then 1 else 0 := by
  rcases runJob_cases b t job with
    ⟨hconcrete, hrun⟩ | ⟨hconcrete, t', -, hrun⟩ | ⟨hconcrete, cause, -, hrun⟩
  · simp [hrun, isDue, hconcrete]
  · have hpath : b.descriptorPath job.element.name = b.descriptorPath name ↔
        job.element.name = name := ⟨descriptorPath_inj b hjob hname, fun h => by rw [h]⟩
    simp [hrun, isDue, hconcrete, List.count_cons, hpath]
  · simp [hrun, isDue, hconcrete, List.count_cons]

theorem count_runJobs (hjs : PlainNames js) (hname : '/' ∉ name.toList) :
    (writtenPaths (b.runJobs t js).1).count (b.descriptorPath name) +
        (failedNames (b.runJobs t js).1).count name =
      (js.filter (isDue name)).length := by
  induction js generalizing t with
  | nil => rfl
  | cons job js ih =>
    have hfirst := count_runJob (b := b) t (hjs job List.mem_cons_self) hname
    have hrest := ih (t := (b.runJob t job).2) fun j hj => hjs j (List.mem_cons_of_mem _ hj)
    rw [runJobs_cons, writtenPaths_cons, failedNames_cons, List.count_append, List.count_append,
      List.filter_cons]
    split at hfirst
    · rw [if_pos ‹_›, List.length_cons]
      omega
    · rw [if_neg ‹_›]
      omega

theorem mem_writtenPaths {path : String} (h : path ∈ writtenPaths (b.runJobs t js).1) :
    ∃ job ∈ js, job.element.isConcreteClass = true ∧
      path = b.descriptorPath job.element.name := by
  induction js generalizing t with
  | nil => simp [runJobs, writtenPaths] at h
  | cons job js ih =>
    rw [runJobs_cons, writtenPaths_cons, List.mem_append] at h
    rcases h with h | h
    · refine ⟨job, List.mem_cons_self, ?_⟩
      rcases runJob_cases b t job with ⟨-, hrun⟩ | ⟨hconcrete, t', -, hrun⟩ | ⟨-, cause, -, hrun⟩
      · simp [hrun] at h
      · exact ⟨hconcrete, by simpa [hrun] using h⟩
      · simp [hrun] at h
    · obtain ⟨j, hj, hrest⟩ := ih h
      exact ⟨j, List.mem_cons_of_mem _ hj, hrest⟩

end Batch
end ServiceMetadata
