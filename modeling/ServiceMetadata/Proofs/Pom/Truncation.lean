import ServiceMetadata.Proofs.Pom.TreeVersion
import ServiceMetadata.Proofs.Xml.Cuts

/-!
# The version in a project descriptor that breaks off

A descriptor whose text breaks off is read as far as it goes, and the end of the text counts as the
end of the version. So a cut does no harm before the version's element has begun, nor after its end
tag, but inside the element it leaves a beginning of the version.
-/
namespace ServiceMetadata.Pom
open ServiceMetadata.Xml (Event Reader spelled)

variable {s s' s'' : State} {r r' : Reader}

inductive Ending where
  | answered (version : Option (List Char))
  | brokeOff (s : State)

def Ending.version : Ending → Option (List Char)
  | .answered version => version
  | .brokeOff s => s.version

inductive Runs : State → Reader → Ending → Prop
  | broken {s : State} {r : Reader} (hnext : r.next = .ok none) : Runs s r (.brokeOff s)
  | answer {s : State} {r r' : Reader} {event : Event} {version : Option (List Char)}
      (hnext : r.next = .ok (some (event, r'))) (hstep : s.step event = .ok (.finished version)) :
      Runs s r (.answered version)
  | step {s s' : State} {r r' : Reader} {event : Event} {e : Ending}
      (hnext : r.next = .ok (some (event, r'))) (hstep : s.step event = .ok (.continue s'))
      (hrest : Runs s' r' e) : Runs s r e

theorem Runs.readFrom_eq {e : Ending} (h : Runs s r e) : readFrom s r = .ok e.version := by
  induction h with
  | broken hnext => exact readFrom_done hnext
  | answer hnext hstep =>
    rw [readFrom_event hnext, hstep]
    rfl
  | step hnext hstep _ ih =>
    rw [readFrom_event hnext, hstep]
    exact ih

theorem exists_runs {version : Option (List Char)} (h : readFrom s r = .ok version) :
    ∃ e, Runs s r e ∧ e.version = version := by
  fun_induction readFrom s r with
  | case1 s r e hnext => simp at h
  | case2 s r hnext => exact ⟨.brokeOff s, .broken hnext, Except.ok.inj h⟩
  | case3 s r event r' hnext e hstep => simp at h
  | case4 s r event r' hnext version' hstep =>
    exact ⟨.answered version', .answer hnext hstep, Except.ok.inj h⟩
  | case5 s r event r' hnext s' hstep ih =>
    obtain ⟨e, hrest, hversion⟩ := ih h
    exact ⟨e, .step hnext hstep hrest, hversion⟩

/-- What a reading that goes on has done: gone into an element, out of one, or past something, which
counts only if it is content of the version's element. -/
inductive State.Onward (s : State) : Event → State → Prop
  | version (hdepth : s.depth = 1) : Onward s (.start versionName) ⟨2, some []⟩
  | enter {name : Xml.Name} : Onward s (.start name) { s with depth := s.depth + 1 }
  | leave (hinside : s.version.isSome = true → s.depth ≠ 2) :
      Onward s .stop { s with depth := s.depth - 1 }
  | content {event : Event} (content : List Char) : Onward s event (s.append content)
  | pass {event : Event} : Onward s event s

theorem State.onward {event : Event} (h : s.step event = .ok (.continue s')) :
    s.Onward event s' := by
  cases event with
  | start name =>
    simp only [State.step] at h
    split at h
    · simp at h
    split at h
    · rename_i hversion
      simp only [Bool.and_eq_true, decide_eq_true_eq] at hversion
      obtain ⟨hdepth, rfl⟩ := hversion
      obtain rfl := Outcome.continue.inj (Except.ok.inj h)
      rw [hdepth]
      exact .version hdepth
    · obtain rfl := Outcome.continue.inj (Except.ok.inj h)
      exact .enter
  | stop =>
    simp only [State.step] at h
    split at h
    · simp at h
    · rename_i hopen
      obtain rfl := Outcome.continue.inj (Except.ok.inj h)
      exact .leave fun hsome hdepth => hopen (by simp [hsome, hdepth])
  | text run =>
    simp only [State.step] at h
    split at h
    · split at h
      · rename_i content hcontent
        obtain rfl := Outcome.continue.inj (Except.ok.inj h)
        exact .content content
      · simp at h
    · obtain rfl := Outcome.continue.inj (Except.ok.inj h)
      exact .pass
  | cdata content =>
    obtain rfl := Outcome.continue.inj (Except.ok.inj h)
    exact .content content
  | other =>
    obtain rfl := Outcome.continue.inj (Except.ok.inj h)
    exact .pass

theorem State.answer_cases {event : Event} {version : Option (List Char)}
    (h : s.step event = .ok (.finished version)) :
    (∃ name, event = .start name) ∧ s.depth = 0 ∧ version = none ∨
      event = .stop ∧ s.depth = 2 ∧ version = s.version := by
  cases event with
  | start name =>
    simp only [State.step] at h
    split at h
    · rename_i hroot
      simp only [Bool.and_eq_true, decide_eq_true_eq] at hroot
      obtain rfl := Outcome.finished.inj (Except.ok.inj h)
      exact .inl ⟨⟨name, rfl⟩, hroot.1, rfl⟩
    · split at h <;> simp at h
  | stop =>
    simp only [State.step] at h
    split at h
    · rename_i hopen
      simp only [Bool.and_eq_true, decide_eq_true_eq] at hopen
      obtain rfl := Outcome.finished.inj (Except.ok.inj h)
      exact .inr ⟨rfl, hopen.1, rfl⟩
    · simp at h
  | text run =>
    simp only [State.step] at h
    split at h
    · split at h <;> simp at h
    · simp at h
  | cdata content => simp [State.step] at h
  | other => simp [State.step] at h

theorem State.step_text_ne_finished (s : State) (run : List Char) (version : Option (List Char)) :
    s.step (.text run) ≠ .ok (.finished version) := by
  intro h
  rcases State.answer_cases h with ⟨⟨name, hstart⟩, -⟩ | ⟨hstop, -⟩
  · simp at hstart
  · simp at hstop

def State.Sound (s : State) : Prop := s.version.isSome = true → 2 ≤ s.depth

theorem State.Sound.onward {event : Event} (hs : s.Sound) (h : s.Onward event s') : s'.Sound := by
  cases h with
  | version hdepth => exact fun _ => Nat.le_refl 2
  | enter => exact fun hsome => Nat.le_succ_of_le (hs hsome)
  | leave hinside =>
    intro hsome
    have hdepth := hs hsome
    have hne := hinside hsome
    show 2 ≤ s.depth - 1
    omega
  | content content => exact fun hsome => hs (by rwa [s.isSome_append] at hsome)
  | pass => exact hs

def GoesOn (version version' : Option (List Char)) : Prop :=
  ∀ content, version = some content → ∃ more, version' = some (content ++ more)

theorem GoesOn.refl (version : Option (List Char)) : GoesOn version version :=
  fun content h => ⟨[], by rw [h, List.append_nil]⟩

theorem GoesOn.trans {a b c : Option (List Char)} (h : GoesOn a b) (h' : GoesOn b c) :
    GoesOn a c := by
  intro content ha
  obtain ⟨more, hb⟩ := h content ha
  obtain ⟨more', hc⟩ := h' _ hb
  exact ⟨more ++ more', by rw [hc, List.append_assoc]⟩

theorem goesOn_append (s : State) (content : List Char) :
    GoesOn s.version (s.append content).version := by
  intro before h
  exact ⟨content, by rw [State.append, h]; rfl⟩

theorem State.Sound.goesOn {event : Event} (hs : s.Sound) (h : s.Onward event s') :
    GoesOn s.version s'.version := by
  cases h with
  | version hdepth =>
    intro content hcontent
    have hdepth' := hs (by rw [hcontent]; rfl)
    omega
  | enter => exact .refl _
  | leave hinside => exact .refl _
  | content content => exact goesOn_append s content
  | pass => exact .refl _

theorem State.Sound.goesOn_answer {event : Event} {version : Option (List Char)} (hs : s.Sound)
    (h : s.step event = .ok (.finished version)) : GoesOn s.version version := by
  rcases State.answer_cases h with ⟨-, hdepth, -⟩ | ⟨-, -, rfl⟩
  · intro content hcontent
    have hdepth' := hs (by rw [hcontent]; rfl)
    omega
  · exact .refl _

theorem Runs.goesOn {e : Ending} (h : Runs s r e) (hs : s.Sound) : GoesOn s.version e.version := by
  induction h with
  | broken hnext => exact .refl _
  | answer hnext hstep => exact hs.goesOn_answer hstep
  | step hnext hstep _ ih =>
    have honward := State.onward hstep
    exact (hs.goesOn honward).trans (ih (hs.onward honward))

theorem State.goesOn_text {run run' : List Char} (h : s.step (.text run) = .ok (.continue s'))
    (h' : s.step (.text (run ++ run')) = .ok (.continue s'')) : GoesOn s'.version s''.version := by
  simp only [State.step] at h h'
  split at h
  · rename_i hsome
    rw [if_pos hsome] at h'
    split at h
    · rename_i content hcontent
      split at h'
      · rename_i content' hcontent'
        obtain rfl := Outcome.continue.inj (Except.ok.inj h)
        obtain rfl := Outcome.continue.inj (Except.ok.inj h')
        rw [Xml.unescape_eq_ok] at hcontent hcontent'
        rw [Xml.spelled_append hcontent] at hcontent'
        obtain ⟨more, -, rfl⟩ := Option.map_eq_some_iff.1 hcontent'
        rw [← s.append_append]
        exact goesOn_append _ more
      · simp at h'
    · simp at h
  · rename_i hnone
    rw [if_neg hnone] at h'
    obtain rfl := Outcome.continue.inj (Except.ok.inj h)
    obtain rfl := Outcome.continue.inj (Except.ok.inj h')
    exact .refl _

def Ending.Foretells : Ending → Option (List Char) → Prop
  | .answered version, version' => version = version'
  | .brokeOff s, version' => GoesOn s.version version'

theorem next_eq_none_of_rest (h : r.rest = []) : r.next = .ok none := by
  rw [Reader.next_eq_none_iff, h]
  rfl

theorem Runs.of_rest_nil {e : Ending} (h : Runs s r e) (hrest : r.rest = []) :
    e = .brokeOff s := by
  have hdone := next_eq_none_of_rest hrest
  cases h with
  | broken hnext => rfl
  | answer hnext hstep => simp [hdone] at hnext
  | step hnext hstep _ => simp [hdone] at hnext

theorem Runs.exists_next {e : Ending} (h : Runs s r e) : ∃ p, r.next = .ok p := by
  cases h with
  | broken hnext => exact ⟨_, hnext⟩
  | answer hnext hstep => exact ⟨_, hnext⟩
  | step hnext hstep _ => exact ⟨_, hnext⟩

theorem Runs.of_event {e : Ending} {event : Event} (h : Runs s r e)
    (hnext : r.next = .ok (some (event, r'))) :
    (∃ version, s.step event = .ok (.finished version) ∧ e = .answered version) ∨
      ∃ s', s.step event = .ok (.continue s') ∧ Runs s' r' e := by
  cases h with
  | broken hnone => simp [hnone] at hnext
  | answer hsome hstep =>
    obtain ⟨rfl, rfl⟩ := Prod.mk.inj (Option.some.inj (Except.ok.inj (hsome.symm.trans hnext)))
    exact .inl ⟨_, hstep, rfl⟩
  | step hsome hstep hrest =>
    obtain ⟨rfl, rfl⟩ := Prod.mk.inj (Option.some.inj (Except.ok.inj (hsome.symm.trans hnext)))
    exact .inr ⟨_, hstep, hrest⟩

theorem Runs.eq_answered {e : Ending} {event : Event} {version : Option (List Char)}
    (h : Runs s r e) (hnext : r.next = .ok (some (event, r')))
    (hstep : s.step event = .ok (.finished version)) : e = .answered version := by
  rcases h.of_event hnext with ⟨version', hstep', rfl⟩ | ⟨s', hstep', -⟩
  · obtain rfl := Outcome.finished.inj (Except.ok.inj (hstep.symm.trans hstep'))
    rfl
  · simp [hstep] at hstep'

theorem Runs.after {e : Ending} {event : Event} (h : Runs s r e)
    (hnext : r.next = .ok (some (event, r'))) (hstep : s.step event = .ok (.continue s')) :
    Runs s' r' e := by
  rcases h.of_event hnext with ⟨version, hstep', -⟩ | ⟨s'', hstep', hrest⟩
  · simp [hstep] at hstep'
  · obtain rfl := Outcome.continue.inj (Except.ok.inj (hstep.symm.trans hstep'))
    exact hrest

/-- A text that is cut short is read like the whole text up to its last event, and there it knows
no more of the version than the whole text does. -/
theorem Runs.foretells {e e' : Ending} (h : Runs s r e) (hs : s.Sound) {more : List Char}
    (hfull : Runs s (r.withMore more) e') : e.Foretells e'.version := by
  -- The whole text is read along with the cut one, event by event, until the cut is reached.
  induction h with
  | broken hnext => exact hfull.goesOn hs
  | @answer s r r' event version hnext hstep =>
    rcases Reader.next_cut hnext with hmore | ⟨-, hcut⟩
    · rw [hfull.eq_answered (hmore more) hstep]
      rfl
    · cases hcut with
      | stop hstop =>
        obtain ⟨p, hp⟩ := hfull.exists_next
        obtain ⟨rest, rfl⟩ := hstop more p hp
        rw [hfull.eq_answered hp hstep]
        rfl
      | text hopened htext => exact absurd hstep (s.step_text_ne_finished _ _)
      | other hopened => simp [State.step] at hstep
  | @step s s' r r' event e hnext hstep hrest ih =>
    have hs' := hs.onward (State.onward hstep)
    rcases Reader.next_cut hnext with hmore | ⟨hend, hcut⟩
    · exact ih hs' (hfull.after (hmore more) hstep)
    obtain rfl := hrest.of_rest_nil hend
    cases hcut with
    | text hopened htext =>
      obtain ⟨run, rest, hrun⟩ := htext more
      rcases hfull.of_event hrun with ⟨version, hstep', -⟩ | ⟨s'', hstep', hrest'⟩
      · exact absurd hstep' (s.step_text_ne_finished _ _)
      · exact (State.goesOn_text hstep hstep').trans
          (hrest'.goesOn (hs.onward (State.onward hstep')))
    | stop hstop =>
      obtain ⟨p, hp⟩ := hfull.exists_next
      obtain ⟨rest, rfl⟩ := hstop more p hp
      exact (hfull.after hp hstep).goesOn hs'
    | other hopened =>
      obtain rfl : s = s' := Outcome.continue.inj (Except.ok.inj hstep)
      exact hfull.goesOn hs

def RunsOn (text : String) (e : Ending) : Prop :=
  Runs ⟨0, none⟩ (Reader.ofText text.toList) e

theorem version_eq_ok_iff {text : String} {v : Option String} :
    version text = .ok v ↔ ∃ e, RunsOn text e ∧ tidy e.version = v := by
  unfold version
  rw [map_eq_ok_iff]
  constructor
  · rintro ⟨characters, hread, htidy⟩
    obtain ⟨e, hruns, rfl⟩ := exists_runs hread
    exact ⟨e, hruns, htidy⟩
  · rintro ⟨e, hruns, htidy⟩
    exact ⟨e.version, hruns.readFrom_eq, htidy⟩

theorem ofText_append {s : List Char} (h : s ≠ []) (more : List Char) :
    Reader.ofText (s ++ more) = (Reader.ofText s).withMore more := by
  obtain ⟨c, s, rfl⟩ := List.exists_cons_of_ne_nil h
  rw [List.cons_append]
  unfold Reader.ofText
  by_cases hc : c = '\uFEFF'
  · subst hc
    rfl
  · split
    · simp_all
    · split
      · simp_all
      · rfl

theorem RunsOn.foretells {cut more : String} {e e' : Ending} (h : RunsOn cut e)
    (hfull : RunsOn (cut ++ more) e') : e.Foretells e'.version := by
  have hs : State.Sound ⟨0, none⟩ := fun hsome => by simp at hsome
  unfold RunsOn at h hfull
  by_cases hcut : cut.toList = []
  · rw [hcut] at h
    obtain rfl := h.of_rest_nil rfl
    intro content hcontent
    simp at hcontent
  · rw [String.toList_append, ofText_append hcut] at hfull
    exact h.foretells hs hfull

/-- The text ends inside the version's element, with this much of the element read. -/
def BreaksOff (text : String) (content : List Char) : Prop :=
  ∃ depth, RunsOn text (.brokeOff ⟨depth, some content⟩)

theorem BreaksOff.version_eq {text : String} {content : List Char} (h : BreaksOff text content) :
    version text = .ok (tidy (some content)) := by
  obtain ⟨depth, hruns⟩ := h
  exact version_eq_ok_iff.2 ⟨_, hruns, rfl⟩

/-- A descriptor that is cut short never has a wrong version if and only if it does not break off
inside the version's element, or after nothing but white space, or after the whole version; and what
it breaks off with is a beginning of the element. -/
theorem version_of_cut {cut more v : String} (h : version (cut ++ more) = .ok (some v)) :
    ((∀ w, version cut = .ok (some w) → w = v) ↔
      ∀ content, BreaksOff cut content → tidy (some content) = none ∨ tidy (some content) = some v) ∧
    ∀ content, BreaksOff cut content → ∃ rest, tidy (some (content ++ rest)) = some v := by
  obtain ⟨e', hfull, hv⟩ := version_eq_ok_iff.1 h
  refine ⟨⟨fun hright content hbroken => ?_, fun hbroken w hw => ?_⟩, ?_⟩
  · cases hcontent : tidy (some content) with
    | none => exact .inl rfl
    | some w =>
      have hw := hbroken.version_eq
      rw [hcontent] at hw
      exact .inr (by rw [hright w hw])
  · obtain ⟨e, hruns, hw⟩ := version_eq_ok_iff.1 hw
    have hsame := hruns.foretells hfull
    cases e with
    | answered version =>
      obtain rfl : version = e'.version := hsame
      exact Option.some.inj (hw.symm.trans hv)
    | brokeOff s =>
      obtain ⟨depth, _ | content⟩ := s
      · simp [Ending.version, tidy] at hw
      · have hw' : tidy (some content) = some w := hw
        rcases hbroken content ⟨depth, hruns⟩ with hnone | hsome
        · simp [hnone] at hw'
        · exact Option.some.inj (hw'.symm.trans hsome)
  · rintro content ⟨depth, hruns⟩
    obtain ⟨rest, hrest⟩ := hruns.foretells hfull content rfl
    exact ⟨rest, by rw [← hrest, hv]⟩

theorem version_of_cut_before_end_tag :
    version ("<m:project xmlns:m=\"http://maven.apache.org/POM/4.0.0\"><m:version> 3.1 " ++
      "</m:version></m:project>") = .ok (some "3.1") ∧
    version "<m:project xmlns:m=\"http://maven.apache.org/POM/4.0.0\"><m:version> 3.1 " =
      .ok (some "3.1") ∧
    ∀ w, version "<m:project xmlns:m=\"http://maven.apache.org/POM/4.0.0\"><m:version> 3.1 " =
      .ok (some w) → w = "3.1" := by
  have hcut : version "<m:project xmlns:m=\"http://maven.apache.org/POM/4.0.0\"><m:version> 3.1 " =
      .ok (some "3.1") := toOption_eq_some_iff.1 (by decide +kernel)
  have hfull : version ("<m:project xmlns:m=\"http://maven.apache.org/POM/4.0.0\"><m:version> 3.1 " ++
      "</m:version></m:project>") = .ok (some "3.1") := toOption_eq_some_iff.1 (by decide +kernel)
  refine ⟨hfull, hcut, (version_of_cut hfull).1.2 fun content hbroken => .inr ?_⟩
  exact Except.ok.inj (hbroken.version_eq.symm.trans hcut)

theorem wrong_version_of_cut :
    String.ofList prefixedDocument.render =
      "<m:project xmlns:m=\"http://maven.apache.org/POM/4.0.0\"><m:version> 3" ++
        ".1 </m:version></m:project>" ∧
    version (String.ofList prefixedDocument.render) = .ok (some "3.1") ∧
    version "<m:project xmlns:m=\"http://maven.apache.org/POM/4.0.0\"><m:version> 3" =
      .ok (some "3") := by
  refine ⟨?_, toOption_eq_some_iff.1 ?_, toOption_eq_some_iff.1 ?_⟩ <;> decide +kernel

end ServiceMetadata.Pom
