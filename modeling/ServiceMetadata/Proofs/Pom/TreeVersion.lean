import ServiceMetadata.Proofs.Pom.Reading

/-!
# The version of a project's tree

What the version of a document is can be said of its tree alone: the character data in the first
child of the root that is the version's element, provided that the root is a project. The reading
of the document's text, which knows of no tree, gives just that, unless a reference by number in that
element has more digits than the greatest code point takes; then it gives nothing.
-/
namespace ServiceMetadata.Pom
open ServiceMetadata.Xml (Reader OpenElement)
open ServiceMetadata.Xml.Tree

def versionChildren (env : Environment) : Node → Option (List Node)
  | .element t children _ => if t.nameIn env = versionName then some children else none
  | _ => none

/-- What is in the version's element of a project, the first among the children of the root. -/
def versionNodes : Root → Option (List Node)
  | .element t children _ =>
    if t.nameIn .initial = projectName then
      children.findSome? (versionChildren (t.environment .initial))
    else none
  | .single _ => none

def versionOfRoot (root : Root) : Option (List Char) := (versionNodes root).map contentOf

/-- The version without white space at its ends, if there is one and something is left of it. -/
def versionOfDocument (d : Document) : Option String :=
  (versionOfRoot d.root).bind fun content =>
    if Text.trim content = [] then none else some (String.ofList (Text.trim content))

/-- No reference by number in the version's element has too many digits. -/
def ShortVersion (root : Root) : Prop := ∀ inner ∈ versionNodes root, AllShort (numbersOf inner)

instance (root : Root) : Decidable (ShortVersion root) :=
  inferInstanceAs (Decidable (∀ inner ∈ versionNodes root, AllShort (numbersOf inner)))

theorem tidy_versionOfRoot (d : Document) :
    tidy (versionOfRoot d.root) = versionOfDocument d := by
  unfold tidy versionOfDocument
  cases versionOfRoot d.root with
  | none => rfl
  | some content =>
    cases htrim : Text.trim content <;> simp [htrim]

variable {t : WrittenTag} {opened : List OpenElement} {found : Option (List Char)}

theorem readFrom_version (hname : t.nameIn (environmentOf opened) = versionName)
    (children : List Node) (beforeEnd : Spaces) (rest : List Char) :
    readFrom ⟨1, none⟩ ⟨opened, (Node.element t children beforeEnd).render ++ rest⟩ =
        .ok found ↔
      AllShort (numbersOf children) ∧ some (contentOf children) = found := by
  have hbegin : State.step ⟨1, none⟩ (.start (t.nameIn (environmentOf opened))) =
      .ok (.continue ⟨2, some []⟩) := by
    rw [hname]
    rfl
  obtain ⟨scope, hreads⟩ := reads_inside (Nat.le_refl 2) hbegin children beforeEnd rest
  have hend : readFrom (State.append ⟨2, some []⟩ (contentOf children))
      ⟨⟨t.name.render, scope⟩ :: opened, t.renderEnd beforeEnd ++ rest⟩ =
        .ok (some (contentOf children)) := by
    rw [readFrom_event (next_end t beforeEnd scope)]
    rfl
  rw [hreads found, hend, Except.ok.injEq]
  simp

theorem reads_other (hname : t.nameIn (environmentOf opened) ≠ versionName)
    (children : List Node) (beforeEnd : Spaces) (rest : List Char) :
    ReadsTo True ⟨1, none⟩ ⟨opened, (Node.element t children beforeEnd).render ++ rest⟩
      ⟨1, none⟩ ⟨opened, rest⟩ := by
  have hbegin : State.step ⟨1, none⟩ (.start (t.nameIn (environmentOf opened))) =
      .ok (.continue ⟨2, none⟩) := by
    simp [State.step, hname]
  obtain ⟨scope, hreads⟩ := reads_inside (Nat.le_refl 2) hbegin children beforeEnd rest
  exact (hreads.trans (.of_event (next_end t beforeEnd scope) rfl)).congr (by simp)

theorem element_of_versionChildren {env : Environment} {n : Node} {inner : List Node}
    (h : versionChildren env n = some inner) :
    ∃ t beforeEnd, n = .element t inner beforeEnd ∧ t.nameIn env = versionName := by
  cases n with
  | element t children beforeEnd =>
    rw [versionChildren] at h
    split at h
    · obtain rfl := Option.some.inj h
      exact ⟨t, beforeEnd, rfl, ‹_›⟩
    · simp at h
  | _ => simp [versionChildren] at h

/-- Nothing but the version's element makes a difference among the children of a project. -/
theorem reads_passed {n : Node} (hn : versionChildren (environmentOf opened) n = none)
    (rest : List Char) :
    ReadsTo True ⟨1, none⟩ ⟨opened, n.render ++ rest⟩ ⟨1, none⟩ ⟨opened, rest⟩ := by
  by_cases hflat : IsFlat n
  · exact (reads_flat n hflat ⟨1, none⟩ opened rest).congr (by simp)
  · cases n with
    | element t children beforeEnd =>
      have hname : t.nameIn (environmentOf opened) ≠ versionName := by
        intro h
        simp [versionChildren, h] at hn
      exact reads_other hname children beforeEnd rest
    | _ => exact absurd trivial hflat

theorem readFrom_children (children : List Node) (rest : List Char) (found : Option (List Char))
    (hrest : readFrom ⟨1, none⟩ ⟨opened, rest⟩ = .ok none) :
    readFrom ⟨1, none⟩ ⟨opened, renderAll children ++ rest⟩ = .ok found ↔
      (∀ inner ∈ children.findSome? (versionChildren (environmentOf opened)),
          AllShort (numbersOf inner)) ∧
        (children.findSome? (versionChildren (environmentOf opened))).map contentOf = found := by
  induction children with
  | nil => simp [renderAll, hrest]
  | cons n children ih =>
    rw [List.findSome?_cons, renderAll, List.append_assoc]
    cases hn : versionChildren (environmentOf opened) n with
    | some inner =>
      obtain ⟨t, beforeEnd, rfl, hname⟩ := element_of_versionChildren hn
      rw [readFrom_version hname]
      simp
    | none =>
      rw [reads_passed hn _ found, true_and]
      exact ih

theorem reads_asides (asides : List Aside) (opened : List OpenElement) (rest : List Char) :
    ReadsTo True ⟨0, none⟩ ⟨opened, asides.flatMap (·.render) ++ rest⟩ ⟨0, none⟩
      ⟨opened, rest⟩ := by
  induction asides with
  | nil => exact .refl _ _
  | cons a asides ih =>
    rw [List.flatMap_cons, List.append_assoc]
    refine (ReadsTo.trans ?_ ih).congr and_self_iff
    cases a with
    | spaces s =>
      exact (reads_spelled s.spells ⟨0, none⟩ opened _).congr (by simp)
    | comment c => exact .of_event c.next_render rfl
    | instruction i => exact .of_event i.next_render rfl

theorem readFrom_root (root : Root) (after : List Aside) :
    readFrom ⟨0, none⟩ ⟨[], root.toNode.render ++ after.flatMap (·.render)⟩ = .ok found ↔
      ShortVersion root ∧ versionOfRoot root = found := by
  have hafter : readFrom ⟨0, none⟩ ⟨[], after.flatMap (·.render)⟩ = .ok none := by
    have hreads := reads_asides after [] []
    rw [List.append_nil] at hreads
    exact (hreads none).2 ⟨trivial, readFrom_end _ _⟩
  cases root with
  | single t =>
    rw [Root.toNode, (reads_flat (.single t) trivial ⟨0, none⟩ [] _) found]
    simp [State.append, hafter, ShortVersion, versionOfRoot, versionNodes]
  | element t children beforeEnd =>
    rw [Root.toNode, render_element]
    obtain ⟨scope, hstart, hinside⟩ := next_start t []
      (renderAll children ++ (t.renderEnd beforeEnd ++ after.flatMap (·.render)))
    rw [environmentOf_nil] at hstart hinside
    rw [readFrom_event hstart, ShortVersion, versionOfRoot, versionNodes]
    by_cases hname : t.nameIn .initial = projectName
    · have hend : readFrom ⟨1, none⟩ ⟨[⟨t.name.render, scope⟩],
          t.renderEnd beforeEnd ++ after.flatMap (·.render)⟩ = .ok none := by
        rw [readFrom_event (next_end t beforeEnd scope)]
        exact hafter
      have hchildren := readFrom_children children _ found hend
      rw [hinside] at hchildren
      rw [if_pos hname, hname]
      exact hchildren
    · rw [if_neg hname]
      simp [State.step, hname]

theorem head?_asides (asides : List Aside) {rest : List Char}
    (hrest : rest.head? ≠ some '\uFEFF') :
    (asides.flatMap (·.render) ++ rest).head? ≠ some '\uFEFF' := by
  induction asides with
  | nil => exact hrest
  | cons a asides ih =>
    rw [List.flatMap_cons, List.append_assoc]
    cases a with
    | spaces s =>
      cases hchars : s.chars with
      | nil => simpa [Aside.render, hchars] using ih
      | cons c chars =>
        have hc : c ≠ '\uFEFF' :=
          isSpace_ne (s.spaces c (hchars ▸ List.mem_cons_self)) (by decide)
        simpa [Aside.render, hchars] using hc
    | comment c => simp [Aside.render, Comment.render]
    | instruction i => simp [Aside.render, Instruction.render]

theorem head?_render (d : Document) : d.render.head? ≠ some '\uFEFF' := by
  apply head?_asides
  cases d.root <;>
    simp [Root.toNode, Node.render, WrittenTag.renderStart, WrittenTag.renderSingle]

theorem ofText_render (d : Document) : Reader.ofText d.render = ⟨[], d.render⟩ := by
  unfold Reader.ofText
  split
  · rename_i rest hmark
    exact absurd (by rw [hmark]; rfl) (head?_render d)
  · rfl

/-- The version read from the text of a document is the version of its tree, if no reference by
number in the version's element has too many digits; otherwise the reading fails. -/
theorem version_render (d : Document) (v : Option String) :
    version (String.ofList d.render) = .ok v ↔ ShortVersion d.root ∧ versionOfDocument d = v := by
  have hread (found : Option (List Char)) : readFrom ⟨0, none⟩ ⟨[], d.render⟩ = .ok found ↔
      ShortVersion d.root ∧ versionOfRoot d.root = found := by
    rw [Document.render, reads_asides d.before [] _ found, true_and, readFrom_root]
  rw [version, String.toList_ofList, ofText_render, map_eq_ok_iff, ← tidy_versionOfRoot]
  constructor
  · rintro ⟨found, hfound, rfl⟩
    obtain ⟨hshort, rfl⟩ := (hread found).1 hfound
    exact ⟨hshort, rfl⟩
  · rintro ⟨hshort, rfl⟩
    exact ⟨_, (hread _).2 ⟨hshort, rfl⟩, rfl⟩

def noSpaces : Spaces := ⟨[], by decide⟩

def letterM : PlainName := ⟨['m'], by decide, by decide⟩

def prefixedVersion : WrittenTag where
  name := ⟨some letterM, versionName.localName, by decide, by decide⟩
  attributes := []
  after := noSpaces

def prefixedProject : WrittenTag where
  name := ⟨some letterM, projectName.localName, by decide, by decide⟩
  attributes := [{
    before := ⟨[' '], by decide⟩
    separated := by decide
    key := .namespaceOf letterM
    beforeSign := noSpaces
    afterSign := noSpaces
    mark := .double
    value := namespaceUri
    unquoted := by decide
    admitted := by decide }]
  after := noSpaces

def spacedVersion : List Piece :=
  [.plain ' ' (by decide), .plain '3' (by decide), .plain '.' (by decide), .plain '1' (by decide),
    .plain ' ' (by decide)]

def prefixedDocument : Document where
  before := []
  root := .element prefixedProject [.element prefixedVersion [.text spacedVersion] noSpaces] noSpaces
  after := []

def paddedThree : NumericReference where
  radix := .hexadecimal
  digits := [0, 0, 0, 0, 0, 3, 3].map fun value => ⟨value, false⟩
  inRadix := by decide
  valid := by decide
  positive := by decide

def plainThree : NumericReference where
  radix := .hexadecimal
  digits := [3, 3].map fun value => ⟨value, false⟩
  inRadix := by decide
  valid := by decide
  positive := by decide

def paddedName : Node :=
  .element
    { prefixedVersion with
      name := ⟨some letterM, ⟨['n', 'a', 'm', 'e'], by decide, by decide⟩⟩ }
    [.text [.number paddedThree]] noSpaces

def referencedVersion (n : NumericReference) : Node :=
  .element prefixedVersion
    [.text [.plain ' ' (by decide), .number n, .plain '.' (by decide)],
      .text [.plain '1' (by decide)]]
    noSpaces

def documentOf (children : List Node) : Document where
  before := []
  root := .element prefixedProject children noSpaces
  after := []

theorem version_beside_padded_reference :
    version ("<m:project xmlns:m=\"http://maven.apache.org/POM/4.0.0\">" ++
      "<m:name>&#x0000033;</m:name><m:version> &#x33;.1</m:version></m:project>") =
        .ok (some "3.1") := by
  have hrender : "<m:project xmlns:m=\"http://maven.apache.org/POM/4.0.0\">" ++
      "<m:name>&#x0000033;</m:name><m:version> &#x33;.1</m:version></m:project>" =
        String.ofList (documentOf [paddedName, referencedVersion plainThree]).render := by
    decide +kernel
  rw [hrender]
  exact (version_render _ _).2 (by decide +kernel)

theorem unread_version_of_padded_reference :
    String.ofList (documentOf [referencedVersion paddedThree]).render =
        "<m:project xmlns:m=\"http://maven.apache.org/POM/4.0.0\">" ++
          "<m:version> &#x0000033;.1</m:version></m:project>" ∧
      versionOfDocument (documentOf [referencedVersion paddedThree]) = some "3.1" ∧
      ∀ v, version (String.ofList (documentOf [referencedVersion paddedThree]).render) ≠ .ok v := by
  refine ⟨by decide +kernel, by decide +kernel, fun v hv => ?_⟩
  have hnone : (version (String.ofList
      (documentOf [referencedVersion paddedThree]).render)).toOption = none := by decide +kernel
  simp [hv, Except.toOption] at hnone

end ServiceMetadata.Pom
