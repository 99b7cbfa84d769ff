import ServiceMetadata.Proofs.Pom.Nesting
import ServiceMetadata.Proofs.Pom.Truncation

/-!
# Where the reading of a project descriptor stops

The reading comes to an answer at one of two tags: the end tag of the first version's element, or the
start tag of a root that is no project. The answer depends on nothing after that tag: neither on later
versions nor on whether the rest is well-formed.
-/
namespace ServiceMetadata.Pom
open ServiceMetadata.Xml (Event Reader depthAfter contentOf?)

variable {text : String} {s : State} {r r' : Reader} {passed : List Event} {last : Event}
  {answer : Option (List Char)}

/-- The last of some events decides the version, and none before it does: it ends the version's
element, or begins a root that is no project. -/
inductive Settles : List Event → Event → Option (List Char) → Prop
  | version {before inside : List Event} {content : List Char} (hbefore : Undecided before)
      (hroot : depthAfter 0 before = some 1) (hended : depthAfter 0 inside = some 0)
      (hcontent : contentOf? inside = some content) :
      Settles (before ++ .start versionName :: inside) .stop (some content)
  | foreignRoot {passed : List Event} {name : Xml.Name} (hpassed : Undecided passed)
      (houtside : depthAfter 0 passed = some 0) (hname : name ≠ projectName) :
      Settles passed (.start name) none

theorem Settles.isTag (h : Settles passed last answer) : last.IsTag := by
  cases h with
  | version _ _ _ _ => exact .stop
  | foreignRoot _ _ _ => exact .start _

theorem State.step_start_iff {name : Xml.Name} :
    s.step (.start name) = .ok (.finished answer) ↔
      s.depth = 0 ∧ name ≠ projectName ∧ answer = none := by
  rw [State.step]
  split
  · rename_i hforeign
    simp only [Bool.and_eq_true, decide_eq_true_eq] at hforeign
    simp [hforeign, eq_comm]
  · rename_i hknown
    simp only [Bool.and_eq_true, decide_eq_true_eq] at hknown
    constructor
    · intro h
      split at h <;> simp at h
    · exact fun h => absurd ⟨h.1, h.2.1⟩ hknown

theorem Standing.settles_iff (h : Standing passed s) :
    s.step last = .ok (.finished answer) ↔ Settles passed last answer := by
  constructor
  · intro hstep
    rcases State.answer_cases hstep with ⟨⟨name, rfl⟩, -⟩ | ⟨rfl, -⟩
    · obtain ⟨hzero, hname, rfl⟩ := State.step_start_iff.1 hstep
      cases h with
      | outside hpassed hdepth' =>
        obtain rfl := hzero
        exact .foreignRoot hpassed hdepth' hname
      | inside _ _ _ _ =>
        simp only at hzero
        omega
    · obtain ⟨htwo, hsome, rfl⟩ := State.step_stop_iff.1 hstep
      cases h with
      | outside hpassed hdepth' => simp at hsome
      | @inside _ _ inner _ hbefore hroot hinner hcontent =>
        obtain rfl : inner = 0 := by
          simp only at htwo
          omega
        exact .version hbefore hroot hinner hcontent
  · intro hsettles
    have hafter := stateAfter_of_standing h
    cases hsettles with
    | version hbefore hroot hended hcontent =>
      rw [stateAfter_inside hbefore hroot, hended, hcontent] at hafter
      obtain rfl := Option.some.inj hafter
      rfl
    | foreignRoot hpassed houtside hname =>
      rw [stateAfter_of_undecided hpassed houtside] at hafter
      obtain rfl := Option.some.inj hafter
      exact State.step_start_iff.2 ⟨rfl, hname, rfl⟩

structure EndsAt (text : String) (passed : List Event) (last : Event) : Prop where
  takenUp : ∃ r, Reader.Passes (Reader.ofText text.toList) (passed ++ [last]) r ∧ r.rest = []
  angle : text.toList.getLast? = some '>'

structure StopsAtEnd (text : String) (passed : List Event) (last : Event)
    (answer : Option (List Char)) : Prop where
  stops : ∃ s r r', Reaches text passed s r ∧ r.next = .ok (some (last, r')) ∧
    s.step last = .ok (.finished answer) ∧ r'.rest = []
  angle : text.toList.getLast? = some '>'

theorem Settles.exists_standing (h : Settles passed last answer) : ∃ s, Standing passed s := by
  cases h with
  | version hbefore hroot hended hcontent => exact ⟨_, .inside hbefore hroot hended hcontent⟩
  | foreignRoot hpassed houtside _ => exact ⟨_, .outside hpassed houtside⟩

theorem stopsAtEnd_iff : StopsAtEnd text passed last answer ↔
    EndsAt text passed last ∧ Settles passed last answer := by
  constructor
  · rintro ⟨⟨s, r, r', hreaches, hnext, hstep, hend⟩, hangle⟩
    exact ⟨⟨⟨r', hreaches.passes.concat hnext, hend⟩, hangle⟩,
      hreaches.standing.settles_iff.1 hstep⟩
  · rintro ⟨⟨⟨r', hpasses, hend⟩, hangle⟩, hsettles⟩
    obtain ⟨r, hpassed, hnext⟩ := hpasses.exists_before_last
    obtain ⟨s, hs⟩ := hsettles.exists_standing
    have hreaches : Reaches text passed s r :=
      reaches_iff.2 ⟨hpassed, stateAfter_of_standing hs⟩
    exact ⟨⟨s, r, r', hreaches, hnext, hs.settles_iff.2 hsettles, hend⟩, hangle⟩

theorem rest_ofText_suffix (s : List Char) : (Reader.ofText s).rest <:+ s := by
  unfold Reader.ofText
  split
  · exact List.suffix_cons _ _
  · exact List.suffix_refl _

theorem getLast?_of_suffix {s rest : List Char} (h : rest <:+ s) (hrest : rest ≠ []) :
    rest.getLast? = s.getLast? := by
  rw [List.getLast?_eq_some_getLast hrest, h.getLast hrest, ← List.getLast?_eq_some_getLast]

theorem Reaches.withMore (h : Reaches text passed s r) (hleft : r.rest ≠ []) (more : String) :
    Reaches (text ++ more) passed s (r.withMore more.toList) := by
  obtain ⟨hpasses, hafter⟩ := reaches_iff.1 h
  have htext : text.toList ≠ [] := by
    intro hnil
    have hsuffix := hpasses.suffix.trans (rest_ofText_suffix text.toList)
    rw [hnil, List.suffix_nil] at hsuffix
    exact hleft hsuffix
  refine reaches_iff.2 ⟨?_, hafter⟩
  rw [String.toList_append, ofText_append htext]
  exact hpasses.withMore hleft more.toList

theorem StopsAtEnd.version_eq (h : StopsAtEnd text passed last answer) :
    version text = .ok (tidy answer) := by
  obtain ⟨⟨s, r, r', hreaches, hnext, hstep, -⟩, -⟩ := h
  rw [hreaches.version_eq, readFrom_event hnext, hstep]
  rfl

theorem StopsAtEnd.version_append (h : StopsAtEnd text passed last answer) (more : String) :
    version (text ++ more) = .ok (tidy answer) := by
  have htag := (stopsAtEnd_iff.1 h).2.isTag
  obtain ⟨⟨s, r, r', hreaches, hnext, hstep, -⟩, hangle⟩ := h
  have hleft : r.rest ≠ [] := fun hnil => by simp [next_eq_none_of_rest hnil] at hnext
  have hlast : r.rest.getLast? = some '>' := by
    rw [getLast?_of_suffix (hreaches.passes.suffix.trans (rest_ofText_suffix _)) hleft]
    exact hangle
  have hmore := Reader.next_tag_more htag hlast hnext more.toList
  rw [(hreaches.withMore hleft more).version_eq, readFrom_event hmore, hstep]
  rfl

/-- The reading stops with the tag that settles the version, and then the answer stands whatever
follows. -/
theorem reading_stops_where_settled (text : String) (passed : List Event) (last : Event)
    (answer : Option (List Char)) :
    (StopsAtEnd text passed last answer ↔
      EndsAt text passed last ∧ Settles passed last answer) ∧
    (StopsAtEnd text passed last answer →
      version text = .ok (tidy answer) ∧
        ∀ more, version (text ++ more) = version text) := by
  refine ⟨stopsAtEnd_iff, fun h => ⟨h.version_eq, fun more => ?_⟩⟩
  rw [h.version_eq]
  exact h.version_append more

def closedVersionText : String :=
  "<m:project xmlns:m=\"http://maven.apache.org/POM/4.0.0\"><m:version> 3.1 </m:version>"

def closedVersionEvents : List Event :=
  [.start projectName, .start versionName, .text " 3.1 ".toList]

def closedVersionReader : Reader where
  opened := [⟨"m:version".toList, prefixedScope⟩, ⟨"m:project".toList, prefixedScope⟩]
  rest := "</m:version>".toList

theorem reading_stops_after_closedVersion :
    (StopsAtEnd closedVersionText closedVersionEvents .stop (some " 3.1 ".toList) ∧
      version (closedVersionText ++ "<m:version>9</m:version></x><!--") =
        version closedVersionText ∧
      version closedVersionText = .ok (some "3.1")) ∧
    StopsAtEnd "<web-app>" [] (.start ⟨none, "web-app".toList⟩) none ∧
      version ("<web-app>" ++ "</oops") = version "<web-app>" ∧ version "<web-app>" = .ok none := by
  have hversion : StopsAtEnd closedVersionText closedVersionEvents .stop
      (some " 3.1 ".toList) := by
    have hpasses : Reader.Passes (Reader.ofText closedVersionText.toList) closedVersionEvents
        closedVersionReader := .of_firstEvents (show Reader.firstEvents 3 _ = _ by decide +kernel)
    have hreaches : Reaches closedVersionText closedVersionEvents ⟨2, some " 3.1 ".toList⟩
        closedVersionReader := reaches_iff.2 ⟨hpasses, by decide +kernel⟩
    have hnext : closedVersionReader.next =
        .ok (some (.stop, ⟨closedVersionReader.opened.tail, []⟩)) :=
      toOption_eq_some_iff.1 (by decide +kernel)
    exact ⟨⟨_, _, _, hreaches, hnext, rfl, rfl⟩, by decide +kernel⟩
  have hforeign : StopsAtEnd "<web-app>" [] (.start ⟨none, "web-app".toList⟩) none := by
    have hnext : (Reader.ofText "<web-app>".toList).next =
        .ok (some (.start ⟨none, "web-app".toList⟩,
          ⟨[⟨"web-app".toList, Xml.Scope.initial⟩], []⟩)) :=
      toOption_eq_some_iff.1 (by decide +kernel)
    exact ⟨⟨_, _, _, .start, hnext, State.step_start_iff.2 ⟨rfl, by decide, rfl⟩, rfl⟩,
      by decide +kernel⟩
  obtain ⟨hanswer, hmore⟩ := (reading_stops_where_settled _ _ _ _).2 hversion
  obtain ⟨hanswer', hmore'⟩ := (reading_stops_where_settled _ _ _ _).2 hforeign
  have htidy : tidy (some " 3.1 ".toList) = some "3.1" := by decide +kernel
  exact ⟨⟨hversion, hmore _, htidy ▸ hanswer⟩, hforeign, hmore' _, hanswer'⟩

end ServiceMetadata.Pom
