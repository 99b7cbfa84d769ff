import Mathlib.Data.List.Induction
import ServiceMetadata.Proofs.Pom.Reading
import ServiceMetadata.Proofs.Xml.Events

/-!
# Where the reading of a project descriptor stands

The reading keeps a number and perhaps some content, and knows nothing of the reader's open elements.
Yet at every point the number is that of the open elements, and there is content just while the
version's element is one of them, namely what stands in that element so far. So the end tag at which
the reading stops is that element's own.
-/
namespace ServiceMetadata.Pom
open ServiceMetadata.Xml (Event Reader OpenElement depthAfter depthAfter_concat depthAfter_add
  contentOf? contentOf?_concat)

variable {text : String} {s s' : State} {event : Event} {passed before inside : List Event}
  {depth depth' inner : Nat} {content : List Char}

/-! ## The events alone -/

def State.next? (s : State) (event : Event) : Option State :=
  match s.step event with
  | .ok (.continue s') => some s'
  | _ => none

theorem State.next?_eq_some_iff : s.next? event = some s' ↔ s.step event = .ok (.continue s') := by
  unfold State.next?
  split <;> simp_all

def stateAfter (passed : List Event) : Option State := passed.foldlM State.next? ⟨0, none⟩

theorem stateAfter_append (before inside : List Event) :
    stateAfter (before ++ inside) =
      (stateAfter before).bind fun s => inside.foldlM State.next? s := by
  rw [stateAfter, List.foldlM_append]
  rfl

theorem stateAfter_concat (passed : List Event) (event : Event) :
    stateAfter (passed ++ [event]) = (stateAfter passed).bind (·.next? event) := by
  simp [stateAfter_append]

def Undecided (events : List Event) : Prop :=
  ∀ before name, before ++ [.start name] <+: events →
    (depthAfter 0 before = some 0 → name = projectName) ∧
      (depthAfter 0 before = some 1 → name ≠ versionName)

theorem undecided_nil : Undecided [] := by
  intro before name hinit
  simp at hinit

theorem undecided_concat_iff : Undecided (passed ++ [event]) ↔
    Undecided passed ∧ ∀ name, event = .start name →
      (depthAfter 0 passed = some 0 → name = projectName) ∧
        (depthAfter 0 passed = some 1 → name ≠ versionName) := by
  constructor
  · intro h
    refine ⟨fun before name hinit => h before name (hinit.trans (List.prefix_append _ _)), ?_⟩
    rintro name rfl
    exact h passed name List.prefix_rfl
  · rintro ⟨hpassed, hlast⟩ before name hinit
    rcases List.prefix_concat_iff.1 hinit with heq | hinit
    · obtain ⟨rfl, hevent⟩ := List.append_inj' heq rfl
      exact hlast name (List.cons.inj hevent).1.symm
    · exact hpassed before name hinit

theorem next?_outside (hdepth : event.depthAfter depth = some depth')
    (hname : ∀ name, event = .start name →
      (depth = 0 → name = projectName) ∧ (depth = 1 → name ≠ versionName)) :
    State.next? ⟨depth, none⟩ event = some ⟨depth', none⟩ := by
  rw [State.next?_eq_some_iff]
  cases event with
  | start name =>
    obtain rfl := Option.some.inj hdepth
    obtain ⟨hroot, hchild⟩ := hname name rfl
    have hproject : ¬ (depth = 0 ∧ name ≠ projectName) := fun h => h.2 (hroot h.1)
    have hversion : ¬ (depth = 1 ∧ name = versionName) := fun h => hchild h.1 h.2
    simp [State.step, hproject, hversion]
  | stop =>
    cases depth with
    | zero => simp [Event.depthAfter] at hdepth
    | succ depth =>
      obtain rfl := Option.some.inj hdepth
      simp [State.step]
  | text run =>
    obtain rfl := Option.some.inj hdepth
    rfl
  | cdata content =>
    obtain rfl := Option.some.inj hdepth
    rfl
  | other =>
    obtain rfl := Option.some.inj hdepth
    rfl

theorem next?_inside (inner : Nat) (content : List Char) (event : Event) :
    State.next? ⟨2 + inner, some content⟩ event =
      (event.depthAfter inner).bind fun inner' =>
        event.content?.map fun more => ⟨2 + inner', some (content ++ more)⟩ := by
  cases event with
  | start name =>
    have hone : 2 + inner ≠ 1 := by omega
    simp [State.next?, State.step, Event.depthAfter, Event.content?, hone, Nat.add_assoc]
  | stop => cases inner <;> simp [State.next?, State.step, Event.depthAfter, Event.content?]
  | text run =>
    cases hrun : Xml.unescape run <;>
      simp [State.next?, State.step, State.append, Event.depthAfter, Event.content?, hrun,
        Except.toOption]
  | cdata content => simp [State.next?, State.step, State.append, Event.depthAfter, Event.content?]
  | other => simp [State.next?, State.step, Event.depthAfter, Event.content?]

theorem foldlM_inside (inside : List Event) :
    inside.foldlM State.next? ⟨2, some []⟩ =
      (depthAfter 0 inside).bind fun inner =>
        (contentOf? inside).map fun content => ⟨2 + inner, some content⟩ := by
  induction inside using List.reverseRecOn with
  | nil => rfl
  | append_singleton inside event ih =>
    rw [List.foldlM_append, ih, depthAfter_concat, contentOf?_concat]
    cases hinner : depthAfter 0 inside with
    | none => rfl
    | some inner =>
      cases hcontent : contentOf? inside with
      | none => simp
      | some content =>
        cases hdepth : event.depthAfter inner <;> cases hmore : event.content? <;>
          simp [next?_inside, hdepth, hmore]

/-- What the reading has come to after some events: no deciding tag yet, or the version's element,
whose content so far it has. -/
inductive Standing : List Event → State → Prop
  | outside {passed : List Event} {depth : Nat} (hpassed : Undecided passed)
      (hdepth : depthAfter 0 passed = some depth) : Standing passed ⟨depth, none⟩
  | inside {before inside : List Event} {inner : Nat} {content : List Char}
      (hbefore : Undecided before) (hroot : depthAfter 0 before = some 1)
      (hinner : depthAfter 0 inside = some inner) (hcontent : contentOf? inside = some content) :
      Standing (before ++ .start versionName :: inside) ⟨2 + inner, some content⟩

theorem stateAfter_of_undecided (hpassed : Undecided passed)
    (hdepth : depthAfter 0 passed = some depth) : stateAfter passed = some ⟨depth, none⟩ := by
  induction passed using List.reverseRecOn generalizing depth with
  | nil =>
    obtain rfl := Option.some.inj hdepth
    rfl
  | append_singleton passed event ih =>
    obtain ⟨hpassed, hname⟩ := undecided_concat_iff.1 hpassed
    rw [depthAfter_concat] at hdepth
    obtain ⟨depth', hdepth', hevent⟩ := Option.bind_eq_some_iff.1 hdepth
    rw [stateAfter_concat, ih hpassed hdepth', Option.bind_some]
    apply next?_outside hevent
    intro name hstart
    simpa [hdepth'] using hname name hstart

theorem stateAfter_inside (hbefore : Undecided before) (hroot : depthAfter 0 before = some 1)
    (inside : List Event) :
    stateAfter (before ++ .start versionName :: inside) =
      (depthAfter 0 inside).bind fun inner =>
        (contentOf? inside).map fun content => ⟨2 + inner, some content⟩ := by
  have hversion : State.next? ⟨1, none⟩ (.start versionName) = some ⟨2, some []⟩ := by decide
  rw [stateAfter_append, stateAfter_of_undecided hbefore hroot, Option.bind_some, List.foldlM_cons,
    hversion]
  exact foldlM_inside inside

theorem stateAfter_of_standing (h : Standing passed s) : stateAfter passed = some s := by
  cases h with
  | outside hpassed hdepth => exact stateAfter_of_undecided hpassed hdepth
  | inside hbefore hroot hinner hcontent =>
    rw [stateAfter_inside hbefore hroot, hinner, hcontent]
    rfl

theorem Standing.depthAfter_eq (h : Standing passed s) : depthAfter 0 passed = some s.depth := by
  cases h with
  | outside _ hdepth => exact hdepth
  | inside _ hroot hinner _ =>
    rw [depthAfter, List.foldlM_append, ← depthAfter, hroot]
    exact depthAfter_add hinner 2

theorem Standing.next (h : Standing passed s) (hdepth : event.depthAfter s.depth = some depth)
    (hnext : s.next? event = some s') : Standing (passed ++ [event]) s' := by
  cases h with
  | @outside _ depth₀ hpassed hdepth₀ =>
    have hdepth' : depthAfter 0 (passed ++ [event]) = some depth := by
      rw [depthAfter_concat, hdepth₀]
      exact hdepth
    by_cases hversion : depth₀ = 1 ∧ event = .start versionName
    · obtain ⟨rfl, rfl⟩ := hversion
      obtain rfl : ⟨2, some []⟩ = s' := Option.some.inj hnext
      exact .inside hpassed hdepth₀ (rfl : depthAfter 0 [] = some 0)
        (rfl : contentOf? [] = some [])
    · have hname : ∀ name, event = .start name →
          (depth₀ = 0 → name = projectName) ∧ (depth₀ = 1 → name ≠ versionName) := by
        rintro name rfl
        refine ⟨?_, fun hone hname => hversion ⟨hone, by rw [hname]⟩⟩
        rintro rfl
        by_contra hname
        simp [State.next?, State.step, hname] at hnext
      rw [next?_outside hdepth hname] at hnext
      obtain rfl := Option.some.inj hnext
      refine .outside (undecided_concat_iff.2 ⟨hpassed, fun name hstart => ?_⟩) hdepth'
      simpa [hdepth₀] using hname name hstart
  | @inside before inside inner content hbefore hroot hinner hcontent =>
    rw [next?_inside] at hnext
    obtain ⟨inner', hinner', hmap⟩ := Option.bind_eq_some_iff.1 hnext
    obtain ⟨more, hmore, rfl⟩ := Option.map_eq_some_iff.1 hmap
    rw [List.append_assoc, List.cons_append]
    apply Standing.inside hbefore hroot
    · rw [depthAfter_concat, hinner]
      exact hinner'
    · rw [contentOf?_concat, hcontent, Option.bind_some, hmore]
      rfl

theorem standing_iff (hdepth : depthAfter 0 passed = some depth) :
    Standing passed s ↔ stateAfter passed = some s := by
  refine ⟨stateAfter_of_standing, fun h => ?_⟩
  induction passed using List.reverseRecOn generalizing s depth with
  | nil =>
    obtain rfl := Option.some.inj h
    exact .outside undecided_nil rfl
  | append_singleton passed event ih =>
    rw [stateAfter_concat] at h
    rw [depthAfter_concat] at hdepth
    obtain ⟨s₀, hbefore, hnext⟩ := Option.bind_eq_some_iff.1 h
    obtain ⟨depth₀, hdepth₀, hevent⟩ := Option.bind_eq_some_iff.1 hdepth
    have hstanding := ih hdepth₀ hbefore
    obtain rfl : depth₀ = s₀.depth := Option.some.inj (hdepth₀.symm.trans hstanding.depthAfter_eq)
    exact hstanding.next hevent hnext

theorem undecided_of_root (h : Standing passed s) (hroot : depthAfter 0 passed = some 1) :
    Undecided passed := by
  have hdepth : s.depth = 1 := Option.some.inj (h.depthAfter_eq.symm.trans hroot)
  cases h with
  | outside hpassed _ => exact hpassed
  | inside hbefore _ _ _ =>
    simp only at hdepth
    omega

/-! ## Along a text -/

inductive Reaches (text : String) : List Event → State → Reader → Prop
  | start : Reaches text [] ⟨0, none⟩ (Reader.ofText text.toList)
  | step {passed : List Event} {s s' : State} {r r' : Reader} {event : Event}
      (h : Reaches text passed s r) (hnext : r.next = .ok (some (event, r')))
      (hstep : s.step event = .ok (.continue s')) : Reaches text (passed ++ [event]) s' r'

theorem reaches_iff {r : Reader} : Reaches text passed s r ↔
    Reader.Passes (Reader.ofText text.toList) passed r ∧ stateAfter passed = some s := by
  constructor
  · intro h
    induction h with
    | start => exact ⟨.nothing, rfl⟩
    | step _ hnext hstep ih =>
      refine ⟨ih.1.concat hnext, ?_⟩
      rw [stateAfter_concat, ih.2, Option.bind_some, State.next?_eq_some_iff]
      exact hstep
  · rintro ⟨hpasses, hafter⟩
    induction passed using List.reverseRecOn generalizing s r with
    | nil =>
      obtain rfl := Option.some.inj hafter
      cases hpasses
      exact .start
    | append_singleton passed event ih =>
      obtain ⟨r', hbefore, hnext⟩ := hpasses.exists_before_last
      rw [stateAfter_concat] at hafter
      obtain ⟨s', hs', hstep⟩ := Option.bind_eq_some_iff.1 hafter
      exact (ih hbefore hs').step hnext (State.next?_eq_some_iff.1 hstep)

namespace Reaches

variable {r : Reader}

theorem passes (h : Reaches text passed s r) :
    Reader.Passes (Reader.ofText text.toList) passed r :=
  (reaches_iff.1 h).1

theorem version_eq (h : Reaches text passed s r) : version text = (readFrom s r).map tidy := by
  induction h with
  | start => rfl
  | step _ hnext hstep ih => rw [ih, readFrom_event hnext, hstep]

theorem depthAfter_eq (h : Reaches text passed s r) :
    depthAfter 0 passed = some r.opened.length :=
  h.passes.depthAfter_length

theorem standing (h : Reaches text passed s r) : Standing passed s :=
  (standing_iff h.depthAfter_eq).2 (reaches_iff.1 h).2

theorem depth_eq (h : Reaches text passed s r) : s.depth = r.opened.length :=
  Option.some.inj (h.standing.depthAfter_eq.symm.trans h.depthAfter_eq)

end Reaches

/-- The version's element is open: its start tag came after `before`, when only `root` was open,
and the events since then, `inside`, do not end it and leave `inner` open in it. -/
structure InVersion (text : String) (r : Reader) (before inside : List Event)
    (root element : OpenElement) (inner : List OpenElement) : Prop where
  begun : ∃ r₁ r₂, Reader.Passes (Reader.ofText text.toList) before r₁ ∧ r₁.opened = [root] ∧
    r₁.next = .ok (some (.start versionName, r₂)) ∧ r₂.opened = [element, root] ∧
    r₂.Passes inside r
  unfinished : depthAfter 0 inside = some inner.length
  opened : r.opened = inner ++ [element, root]

namespace InVersion

variable {r : Reader} {root element : OpenElement} {opened : List OpenElement}

theorem depthAfter_before (h : InVersion text r before inside root element opened) :
    depthAfter 0 before = some 1 := by
  obtain ⟨r₁, r₂, hbefore, hroot, -⟩ := h.begun
  rw [← show r₁.opened.length = 1 by rw [hroot]; rfl]
  exact hbefore.depthAfter_length

theorem of_reaches (h : Reaches text (before ++ .start versionName :: inside) s r)
    (hroot : depthAfter 0 before = some 1) (hinner : depthAfter 0 inside = some inner) :
    ∃ root element opened, InVersion text r before inside root element opened ∧
      opened.length = inner := by
  obtain ⟨r₁, hbefore, hrest⟩ := h.passes.exists_between
  cases hrest with
  | @event _ r₂ _ _ _ hnext hinside =>
    have hlength : r₁.opened.length = 1 :=
      Option.some.inj (hbefore.depthAfter_length.symm.trans hroot)
    obtain ⟨root, hr₁⟩ := List.length_eq_one_iff.1 hlength
    obtain ⟨element, hr₂⟩ : ∃ element, r₂.opened = [element, root] := by
      have hmoves := Reader.moves_of_next hnext
      rw [hr₁] at hmoves
      generalize r₂.opened = opened at hmoves
      cases hmoves with
      | @start _ element => exact ⟨element, rfl⟩
    have hr₂' : r₂.opened = [] ++ [element, root] := hr₂
    obtain ⟨opened, hlength, hopened⟩ := hinside.exists_inner hr₂' hinner
    exact ⟨root, element, opened, ⟨⟨r₁, r₂, hbefore, hr₁, hnext, hr₂, hinside⟩,
      hlength ▸ hinner, hopened⟩, hlength⟩

theorem state_eq (h : InVersion text r before inside root element opened)
    (hreaches : Reaches text (before ++ .start versionName :: inside) s r) :
    ∃ content, contentOf? inside = some content ∧ s = ⟨2 + opened.length, some content⟩ := by
  have hroot := h.depthAfter_before
  have hafter := (reaches_iff.1 hreaches).2
  have hbefore : Undecided before := by
    rw [stateAfter_append] at hafter
    obtain ⟨s₁, hs₁, -⟩ := Option.bind_eq_some_iff.1 hafter
    exact undecided_of_root ((standing_iff hroot).2 hs₁) hroot
  rw [stateAfter_inside hbefore hroot, h.unfinished, Option.bind_some] at hafter
  obtain ⟨content, hcontent, rfl⟩ := Option.map_eq_some_iff.1 hafter
  exact ⟨content, hcontent, rfl⟩

end InVersion

theorem State.step_stop_iff {answer : Option (List Char)} :
    s.step .stop = .ok (.finished answer) ↔
      s.depth = 2 ∧ s.version.isSome = true ∧ answer = s.version := by
  rw [State.step]
  split
  · rename_i hopen
    simp only [Bool.and_eq_true, decide_eq_true_eq] at hopen
    simp [hopen, eq_comm]
  · rename_i hopen
    simp only [Bool.and_eq_true, decide_eq_true_eq] at hopen
    simp only [Except.ok.injEq, reduceCtorEq, false_iff]
    exact fun h => hopen ⟨h.1, h.2.1⟩

namespace Reaches

variable {r r' : Reader}

theorem version_eq_some_iff (h : Reaches text passed s r) :
    s.version = some content ↔ ∃ before inside root element inner,
      passed = before ++ .start versionName :: inside ∧
        InVersion text r before inside root element inner ∧ s.depth = 2 + inner.length ∧
          contentOf? inside = some content := by
  constructor
  · intro hversion
    have hstanding := h.standing
    cases hstanding with
    | outside hpassed hdepth => simp at hversion
    | @inside before inside inner content' hbefore hroot hinner hcontent =>
      obtain rfl : content' = content := Option.some.inj hversion
      obtain ⟨root, element, opened, hin, rfl⟩ := InVersion.of_reaches h hroot hinner
      exact ⟨before, inside, root, element, opened, rfl, hin, rfl, hcontent⟩
  · rintro ⟨before, inside, root, element, inner, rfl, hin, -, hcontent⟩
    obtain ⟨content', hcontent', rfl⟩ := hin.state_eq h
    exact hcontent'.symm.trans hcontent

theorem step_stop_iff (h : Reaches text passed s r) (hnext : r.next = .ok (some (.stop, r')))
    {answer : Option (List Char)} :
    s.step .stop = .ok (.finished answer) ↔ ∃ before inside root element,
      passed = before ++ .start versionName :: inside ∧
        InVersion text r before inside root element [] ∧ r'.opened = [root] ∧
          answer = contentOf? inside := by
  rw [State.step_stop_iff]
  constructor
  · rintro ⟨hdepth, hsome, rfl⟩
    obtain ⟨content, hversion⟩ := Option.isSome_iff_exists.1 hsome
    obtain ⟨before, inside, root, element, inner, rfl, hin, hinner, hcontent⟩ :=
      h.version_eq_some_iff.1 hversion
    obtain rfl : inner = [] := List.length_eq_zero_iff.1 (by omega)
    have hmoves := Reader.moves_of_next hnext
    rw [hin.opened, List.nil_append] at hmoves
    refine ⟨before, inside, root, element, rfl, hin, ?_, hversion.trans hcontent.symm⟩
    generalize r'.opened = opened at hmoves
    cases hmoves
    rfl
  · rintro ⟨before, inside, root, element, rfl, hin, -, rfl⟩
    obtain ⟨content, hcontent, rfl⟩ := hin.state_eq h
    exact ⟨rfl, rfl, hcontent⟩

theorem depth_pos (h : Reaches text passed s r) (hnext : r.next = .ok (some (.stop, r'))) :
    0 < s.depth := by
  rw [h.depth_eq]
  have hmoves := Reader.moves_of_next hnext
  generalize r.opened = opened, r'.opened = opened' at hmoves
  cases hmoves
  exact Nat.succ_pos _

/-- The number that is kept is that of the open elements, and content is kept just while the
version's element is open, which is until the reading stops. -/
theorem depth_and_version (h : Reaches text passed s r) :
    version text = (readFrom s r).map tidy ∧
    s.depth = r.opened.length ∧ depthAfter 0 passed = some s.depth ∧
    (∀ content, s.version = some content ↔ ∃ before inside root element inner,
      passed = before ++ .start versionName :: inside ∧
        InVersion text r before inside root element inner ∧ s.depth = 2 + inner.length ∧
          contentOf? inside = some content) ∧
    (∀ r', r.next = .ok (some (.stop, r')) → 0 < s.depth ∧
      ∀ answer, s.step .stop = .ok (.finished answer) ↔ ∃ before inside root element,
        passed = before ++ .start versionName :: inside ∧
          InVersion text r before inside root element [] ∧ r'.opened = [root] ∧
            answer = contentOf? inside) ∧
    ∀ tag rest, Xml.readMarkup r.rest = .ok (some (.single tag, rest)) →
      ∀ event r', r.next = .ok (some (event, r')) →
        r'.opened = r.opened ∧ s.step event = .ok (.continue s) := by
  refine ⟨h.version_eq, h.depth_eq, h.standing.depthAfter_eq, fun content => h.version_eq_some_iff,
    fun r' hnext => ⟨h.depth_pos hnext, fun answer => h.step_stop_iff hnext⟩, ?_⟩
  intro tag rest hsingle event r' hnext
  obtain ⟨rfl, hopened⟩ := Reader.eq_other_of_single hsingle hnext
  exact ⟨hopened, rfl⟩

end Reaches

def nestedText : String :=
  "<m:project xmlns:m=\"http://maven.apache.org/POM/4.0.0\"><m:version>3<m:version><b/>"

def nestedEvents : List Event :=
  [.start projectName, .start versionName, .text ['3'], .start versionName]

def prefixedScope : Xml.Scope := ⟨some ['m'], namespaceUri⟩ :: Xml.Scope.initial

def nestedReader : Reader where
  opened := [⟨"m:version".toList, prefixedScope⟩, ⟨"m:version".toList, prefixedScope⟩,
    ⟨"m:project".toList, prefixedScope⟩]
  rest := "<b/>".toList

theorem depth_and_version_of_nested :
    Reaches nestedText nestedEvents ⟨3, some ['3']⟩ nestedReader ∧
    nestedReader.opened.length = 3 ∧
    (∃ before inside root element inner, nestedEvents = before ++ .start versionName :: inside ∧
      InVersion nestedText nestedReader before inside root element inner ∧
        3 = 2 + inner.length ∧ contentOf? inside = some ['3']) ∧
    nestedReader.next = .ok (some (.other, { nestedReader with rest := [] })) ∧
    State.step ⟨3, some ['3']⟩ .other = .ok (.continue ⟨3, some ['3']⟩) := by
  have hpasses : Reader.Passes (Reader.ofText nestedText.toList) nestedEvents nestedReader :=
    .of_firstEvents (show Reader.firstEvents 4 _ = _ by decide +kernel)
  have hreaches : Reaches nestedText nestedEvents ⟨3, some ['3']⟩ nestedReader :=
    reaches_iff.2 ⟨hpasses, by decide +kernel⟩
  have hsingle : Xml.readMarkup nestedReader.rest = .ok (some (.single ⟨['b'], []⟩, [])) :=
    toOption_eq_some_iff.1 (by decide +kernel)
  have hnext : nestedReader.next = .ok (some (.other, { nestedReader with rest := [] })) :=
    toOption_eq_some_iff.1 (by decide +kernel)
  obtain ⟨-, hdepth, -, hversion, -, hpassed⟩ := Reaches.depth_and_version hreaches
  exact ⟨hreaches, hdepth.symm, (hversion ['3']).1 rfl, hnext, (hpassed _ _ hsingle _ _ hnext).2⟩

end ServiceMetadata.Pom
