import ServiceMetadata.Proofs.FileTree.Places
import ServiceMetadata.Proofs.FirstLine
import ServiceMetadata.Proofs.Versions

/-!
# Where a version comes from

A record, the version file and the project descriptor are asked in this order, and the first that has
a say decides: a record that gives a version, a version file with a first line, and a project
descriptor that is there at all, whether a version can be read from it or not. What comes after the
one that decides has no influence. The kinds of descriptors differ only where none has a say.
-/
namespace ServiceMetadata

namespace FileTree

theorem readText_eq_ok {t : FileTree} {path text : String} :
    t.readText path = .ok text ↔ t.read path = .ok text.toUTF8 := by
  rw [readText]
  cases t.read path with
  | error err => simp
  | ok bytes =>
    rw [Except.ok.injEq, @eq_comm _ bytes, ← fromUTF8?_eq_some_iff]
    cases htext : String.fromUTF8? bytes <;> simp [htext]

end FileTree

def NoneGiven (explicit : Option String) : Prop := explicit = none ∨ explicit = some ""

theorem noneGiven_iff {explicit : Option String} :
    NoneGiven explicit ↔ explicit.filter (· ≠ "") = none := by
  cases explicit <;> simp [NoneGiven]

namespace Project

variable {p q : Project} {kind : DescriptorKind} {explicit r : Option String} {line v : String}

def LineGiven (p : Project) (line : String) : Prop :=
  line ≠ "" ∧ ∃ bytes, p.tree.read (versionPath p.directory) = .ok bytes ∧
    LineAtFront line.toUTF8.data.toList bytes.data.toList

def PomThere (p : Project) : Prop := ∃ place e, p.tree.find (pomPath p.directory) = .ok (place, e)

def PomGives (p : Project) (v : String) : Prop :=
  ∃ text : String, p.tree.read (pomPath p.directory) = .ok text.toUTF8 ∧
    Pom.version text = .ok (some v)

/-- The version that the first source with a say gives. -/
inductive VersionFrom (p : Project) (kind : DescriptorKind) (explicit : Option String) :
    Option String → Prop
  | record {v : String} (hrecord : explicit = some v) (hv : v ≠ "") :
      VersionFrom p kind explicit (some v)
  | file {line : String} (hrecord : NoneGiven explicit) (hline : p.LineGiven line) :
      VersionFrom p kind explicit (some line)
  | pom {v : String} (hrecord : NoneGiven explicit) (hline : ∀ line, ¬ p.LineGiven line)
      (hpom : p.PomGives v) : VersionFrom p kind explicit (some v)
  | silentPom (hrecord : NoneGiven explicit) (hline : ∀ line, ¬ p.LineGiven line)
      (hthere : p.PomThere) (hpom : ∀ v, ¬ p.PomGives v) : VersionFrom p kind explicit none
  | service (hrecord : NoneGiven explicit) (hline : ∀ line, ¬ p.LineGiven line)
      (hthere : ¬ p.PomThere) (hkind : kind = .service) : VersionFrom p kind explicit none
  | dataSource (hrecord : NoneGiven explicit) (hline : ∀ line, ¬ p.LineGiven line)
      (hthere : ¬ p.PomThere) (hkind : kind = .dataSource) :
      VersionFrom p kind explicit (some "0.0.0.UNKNOWN")

theorem versionLine_eq_some_iff : p.versionLine = some line ↔ p.LineGiven line := by
  rw [versionLine_eq, Option.bind_eq_some_iff]
  simp only [toOption_eq_some_iff, firstLine_eq_some_iff]
  constructor
  · intro h
    obtain ⟨bytes, hread, hne, hfront⟩ := h
    exact ⟨hne, bytes, hread, hfront⟩
  · intro h
    obtain ⟨hne, bytes, hread, hfront⟩ := h
    exact ⟨bytes, hread, hne, hfront⟩

theorem versionLine_eq_none_iff : p.versionLine = none ↔ ∀ line, ¬ p.LineGiven line := by
  simp only [Option.eq_none_iff_forall_ne_some, ne_eq, versionLine_eq_some_iff]

theorem isPresent_iff : p.tree.isPresent (pomPath p.directory) = true ↔ p.PomThere := by
  rw [FileTree.isPresent, PomThere]
  cases p.tree.find (pomPath p.directory) with
  | error err => simp [Except.isOk, Except.toBool]
  | ok found =>
    obtain ⟨place, e⟩ := found
    simp [Except.isOk, Except.toBool]

theorem PomGives.there (h : p.PomGives v) : p.PomThere := by
  obtain ⟨text, hread, -⟩ := h
  obtain ⟨place, hfind⟩ := FileTree.read_eq_ok.1 hread
  exact ⟨place, _, hfind⟩

theorem pomVersion_eq_ok_some_iff :
    p.tree.pomVersion (pomPath p.directory) = .ok (some v) ↔ p.PomGives v := by
  rw [FileTree.pomVersion, PomGives]
  simp only [← FileTree.readText_eq_ok]
  cases p.tree.readText (pomPath p.directory) with
  | error err => simp
  | ok text => cases hversion : Pom.version text <;> simp [hversion]

theorem versionFromPom_of_there (h : p.PomThere) :
    p.versionFromPom kind = some v ↔ p.PomGives v := by
  rw [versionFromPom, if_pos (isPresent_iff.2 h), ← pomVersion_eq_ok_some_iff]
  cases p.tree.pomVersion (pomPath p.directory) <;> simp

theorem versionFromPom_of_not_there (h : ¬ p.PomThere) :
    p.versionFromPom kind = kind.versionWithoutPom := by
  rw [versionFromPom, if_neg (mt isPresent_iff.1 h)]

theorem version_of_line (h : NoneGiven explicit) (hline : p.LineGiven line) :
    p.version kind explicit = some line := by
  rw [version, noneGiven_iff.1 h, versionLine_eq_some_iff.2 hline]

theorem version_of_no_line (h : NoneGiven explicit) (hline : ∀ line, ¬ p.LineGiven line) :
    p.version kind explicit = p.versionFromPom kind := by
  rw [version, noneGiven_iff.1 h, versionLine_eq_none_iff.2 hline]

theorem VersionFrom.eq_version (h : p.VersionFrom kind explicit r) :
    p.version kind explicit = r := by
  cases h with
  | record hrecord hv =>
    exact p.version_of_filter_eq_some kind
      (Option.filter_eq_some_iff.2 ⟨hrecord, by simpa using hv⟩)
  | file hrecord hline => exact version_of_line hrecord hline
  | pom hrecord hline hpom =>
    rw [version_of_no_line hrecord hline]
    exact (versionFromPom_of_there hpom.there).2 hpom
  | silentPom hrecord hline hthere hpom =>
    rw [version_of_no_line hrecord hline, Option.eq_none_iff_forall_ne_some]
    exact fun v hv => hpom v ((versionFromPom_of_there hthere).1 hv)
  | service hrecord hline hthere hkind =>
    rw [version_of_no_line hrecord hline, versionFromPom_of_not_there hthere, hkind]
    rfl
  | dataSource hrecord hline hthere hkind =>
    rw [version_of_no_line hrecord hline, versionFromPom_of_not_there hthere, hkind]
    rfl

theorem exists_versionFrom (p : Project) (kind : DescriptorKind) (explicit : Option String) :
    ∃ r, p.VersionFrom kind explicit r := by
  cases hgiven : explicit.filter (· ≠ "") with
  | some v =>
    obtain ⟨hrecord, hv⟩ := Option.filter_eq_some_iff.1 hgiven
    exact ⟨_, .record hrecord (by simpa using hv)⟩
  | none =>
    have hrecord : NoneGiven explicit := noneGiven_iff.2 hgiven
    by_cases hfile : ∃ line, p.LineGiven line
    · obtain ⟨line, hline⟩ := hfile
      exact ⟨_, .file hrecord hline⟩
    have hline := not_exists.1 hfile
    by_cases hthere : p.PomThere
    · by_cases hversion : ∃ v, p.PomGives v
      · obtain ⟨v, hpom⟩ := hversion
        exact ⟨_, .pom hrecord hline hpom⟩
      · exact ⟨_, .silentPom hrecord hline hthere (not_exists.1 hversion)⟩
    · cases kind with
      | service => exact ⟨_, .service hrecord hline hthere rfl⟩
      | dataSource => exact ⟨_, .dataSource hrecord hline hthere rfl⟩

theorem version_eq_iff : p.version kind explicit = r ↔ p.VersionFrom kind explicit r := by
  refine ⟨fun h => ?_, VersionFrom.eq_version⟩
  obtain ⟨r', hfrom⟩ := p.exists_versionFrom kind explicit
  obtain rfl : r' = r := hfrom.eq_version.symm.trans h
  exact hfrom

theorem version_of_same_line (hp : p.LineGiven line) (hq : q.LineGiven line) :
    q.version kind explicit = p.version kind explicit := by
  cases hgiven : explicit.filter (· ≠ "") with
  | some v => rw [q.version_of_filter_eq_some kind hgiven, p.version_of_filter_eq_some kind hgiven]
  | none =>
    have hrecord : NoneGiven explicit := noneGiven_iff.2 hgiven
    rw [version_of_line hrecord hp, version_of_line hrecord hq]

theorem LineGiven.write {t' : FileTree} {bytes : ByteArray} (h : p.LineGiven line)
    (hwrite : p.tree.write (pomPath p.directory) bytes = .ok t') :
    (Project.mk t' p.directory).LineGiven line := by
  obtain ⟨hne, content, hread, hfront⟩ := h
  have hplace : p.tree.placeOf (versionPath p.directory) ≠
      p.tree.placeOf (pomPath p.directory) := by
    rw [versionPath, pomPath, FileTree.placeOf_join_name _ _ (by decide),
      FileTree.placeOf_join_name _ _ (by decide)]
    intro heq
    exact absurd (List.append_cancel_left heq) (by decide)
  exact ⟨hne, content, (FileTree.read_write_of_ne hwrite hplace).2 hread, hfront⟩

theorem kinds_differ_iff :
    p.version .service explicit ≠ p.version .dataSource explicit ↔
      NoneGiven explicit ∧ (∀ line, ¬ p.LineGiven line) ∧ ¬ p.PomThere := by
  constructor
  · intro hne
    obtain ⟨r, hfrom⟩ := p.exists_versionFrom .service explicit
    -- Only the last two cases of `VersionFrom` ask for the kind.
    have hother : ¬ p.VersionFrom .dataSource explicit r :=
      fun h => hne (hfrom.eq_version.trans h.eq_version.symm)
    cases hfrom with
    | record hrecord hv => exact absurd (.record hrecord hv) hother
    | file hrecord hline => exact absurd (.file hrecord hline) hother
    | pom hrecord hline hpom => exact absurd (.pom hrecord hline hpom) hother
    | silentPom hrecord hline hthere hpom =>
      exact absurd (.silentPom hrecord hline hthere hpom) hother
    | service hrecord hline hthere => exact ⟨hrecord, hline, hthere⟩
    | dataSource _ _ _ hkind => simp at hkind
  · intro h
    obtain ⟨hrecord, hline, hthere⟩ := h
    rw [version_of_no_line hrecord hline, version_of_no_line hrecord hline,
      versionFromPom_of_not_there hthere, versionFromPom_of_not_there hthere]
    decide

theorem kinds_differ_iff_unknown :
    p.version .service explicit ≠ p.version .dataSource explicit ↔
      p.version .service explicit = none ∧
        p.version .dataSource explicit = some "0.0.0.UNKNOWN" := by
  constructor
  · intro hne
    obtain ⟨hrecord, hline, hthere⟩ := kinds_differ_iff.1 hne
    exact ⟨version_eq_iff.2 (.service hrecord hline hthere rfl),
      version_eq_iff.2 (.dataSource hrecord hline hthere rfl)⟩
  · intro h
    obtain ⟨hservice, hdataSource⟩ := h
    rw [hservice, hdataSource]
    simp

/-- The version is what the first source with a say gives, and never empty. Whatever the project
descriptor is, it has no influence where the version file has a first line. The kinds differ just
where no source has a say. -/
theorem first_source_decides (p : Project) (kind : DescriptorKind) (explicit : Option String) :
    (∀ r, p.version kind explicit = r ↔ p.VersionFrom kind explicit r) ∧
      p.version kind explicit ≠ some "" ∧
      (∀ line, p.LineGiven line →
        (∀ q : Project, q.LineGiven line → q.version kind explicit = p.version kind explicit) ∧
        ∀ bytes t', p.tree.write (pomPath p.directory) bytes = .ok t' →
          (Project.mk t' p.directory).version kind explicit = p.version kind explicit) ∧
      (p.version .service explicit ≠ p.version .dataSource explicit ↔
        NoneGiven explicit ∧ (∀ line, ¬ p.LineGiven line) ∧ ¬ p.PomThere) := by
  refine ⟨fun r => version_eq_iff, p.version_ne_empty kind explicit, fun line hline => ⟨?_, ?_⟩,
    kinds_differ_iff⟩
  · exact fun q hq => version_of_same_line hline hq
  · exact fun bytes t' hwrite => version_of_same_line hline (hline.write hwrite)

example : (Project.mk { current := [], entries := [(["pom.xml".toList],
    .file "<project><version>".toUTF8)] } ".").version .dataSource none = none := by
  decide +kernel

end Project
end ServiceMetadata
