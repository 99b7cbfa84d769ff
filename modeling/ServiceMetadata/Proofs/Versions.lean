import ServiceMetadata.Proofs.Except
import ServiceMetadata.Version

/-!
# Versions are never empty

Wherever a version comes from, it is not the empty text, and a version that is given is kept.
-/
namespace ServiceMetadata

theorem Pom.tidy_ne_empty (version : Option (List Char)) : tidy version ≠ some "" := by
  unfold tidy
  split
  · simp
  · simp
  · rename_i v hne _
    intro h
    have hnil : v = [] := by simpa using congrArg String.toList (Option.some.inj h)
    exact hne hnil

theorem Pom.version_ne_empty {text : String} {v : Option String} (h : version text = .ok v) :
    v ≠ some "" := by
  obtain ⟨characters, -, rfl⟩ := map_eq_ok_iff.1 h
  exact tidy_ne_empty characters

theorem FileTree.pomVersion_ne_empty {t : FileTree} {path : String} {v : Option String}
    (h : t.pomVersion path = .ok v) : v ≠ some "" := by
  unfold pomVersion at h
  split at h
  · simp at h
  · split at h
    · simp at h
    · rename_i hversion
      exact Except.ok.inj h ▸ Pom.version_ne_empty hversion

namespace Project

theorem versionLine_eq (p : Project) :
    p.versionLine = (p.tree.read (versionPath p.directory)).toOption.bind firstLine := by
  unfold versionLine
  cases p.tree.read (versionPath p.directory) <;> rfl

theorem versionFromPom_eq (p : Project) (kind : DescriptorKind) :
    p.versionFromPom kind =
      if (p.tree.find (pomPath p.directory)).toOption.isSome then
        (p.tree.read (pomPath p.directory)).toOption.bind fun bytes =>
          (String.fromUTF8? bytes).bind fun text => (Pom.version text).toOption.join
      else kind.versionWithoutPom := by
  have hpresent : p.tree.isPresent (pomPath p.directory) =
      (p.tree.find (pomPath p.directory)).toOption.isSome := by
    unfold FileTree.isPresent
    cases p.tree.find (pomPath p.directory) <;> rfl
  unfold versionFromPom FileTree.pomVersion FileTree.readText
  rw [hpresent]
  congr 1
  cases p.tree.read (pomPath p.directory) with
  | error e => rfl
  | ok bytes =>
    cases htext : String.fromUTF8? bytes with
    | none => simp [htext, Except.toOption]
    | some text => cases hversion : Pom.version text <;> simp [htext, hversion, Except.toOption]

theorem versionLine_ne_empty (p : Project) : p.versionLine ≠ some "" := by
  unfold versionLine
  split
  · intro h
    simpa using (Option.filter_eq_some_iff.1 h).2
  · simp

theorem versionFromPom_ne_empty (p : Project) (kind : DescriptorKind) :
    p.versionFromPom kind ≠ some "" := by
  unfold versionFromPom
  split
  · split
    · rename_i hversion
      exact FileTree.pomVersion_ne_empty hversion
    · simp
  · cases kind <;> simp [DescriptorKind.versionWithoutPom, unknownVersion]

theorem version_ne_empty (p : Project) (kind : DescriptorKind) (explicit : Option String) :
    p.version kind explicit ≠ some "" := by
  unfold version
  split
  · rename_i v hexplicit
    have hne : v ≠ "" := by simpa using (Option.filter_eq_some_iff.1 hexplicit).2
    simpa using hne
  · split
    · rename_i line hline
      exact hline ▸ p.versionLine_ne_empty
    · exact p.versionFromPom_ne_empty kind

theorem version_of_filter_eq_some (p : Project) (kind : DescriptorKind) {explicit : Option String}
    {v : String} (h : explicit.filter (· ≠ "") = some v) : p.version kind explicit = some v := by
  rw [version, h]

theorem version_of_filter_eq_none (p : Project) (kind : DescriptorKind) {explicit : Option String}
    (h : explicit.filter (· ≠ "") = none) : p.version kind explicit = p.version kind none := by
  rw [version, h]
  rfl

theorem version_version (p : Project) (kind : DescriptorKind) (explicit : Option String) :
    p.version kind (p.version kind explicit) = p.version kind explicit := by
  cases hversion : p.version kind explicit with
  | some v =>
    have hne : v ≠ "" := fun h => p.version_ne_empty kind explicit (by rw [hversion, h])
    have hgiven : (some v).filter (· ≠ "") = some v :=
      Option.filter_eq_some_iff.2 ⟨rfl, by simpa using hne⟩
    exact p.version_of_filter_eq_some kind hgiven
  | none =>
    -- A version that is given would have been kept, so `explicit` gives none.
    cases hexplicit : explicit.filter (· ≠ "") with
    | some v => simp [p.version_of_filter_eq_some kind hexplicit] at hversion
    | none => rw [← p.version_of_filter_eq_none kind hexplicit, hversion]

end Project
end ServiceMetadata
