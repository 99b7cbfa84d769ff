import ServiceMetadata.Proofs.Xml.Unread

/-!
# The events of a text

What can be said of the events between two points of a text without the text: how many elements are
open after them, and what character data they add. A reader's open elements are as many as its
events say, and an element that the events since its start tag do not end is still open.
-/
namespace ServiceMetadata.Xml

def Event.depthAfter : Nat → Event → Option Nat
  | depth, .start _ => some (depth + 1)
  | 0, .stop => none
  | depth + 1, .stop => some depth
  | depth, _ => some depth

/-- How many elements are open after some events. From 0 on, only those count that the events begin,
and there is no such number if they end one that was open before them. -/
def depthAfter (depth : Nat) (events : List Event) : Option Nat :=
  events.foldlM Event.depthAfter depth

theorem depthAfter_concat (depth : Nat) (events : List Event) (event : Event) :
    depthAfter depth (events ++ [event]) = (depthAfter depth events).bind (event.depthAfter ·) := by
  simp [depthAfter, List.foldlM_append]

theorem Event.depthAfter_add {event : Event} {depth depth' : Nat}
    (h : event.depthAfter depth = some depth') (n : Nat) :
    event.depthAfter (n + depth) = some (n + depth') := by
  cases event with
  | stop =>
    cases depth with
    | zero => simp [Event.depthAfter] at h
    | succ depth =>
      obtain rfl := Option.some.inj h
      rfl
  | start name =>
    obtain rfl := Option.some.inj h
    rfl
  | text run =>
    obtain rfl := Option.some.inj h
    rfl
  | cdata content =>
    obtain rfl := Option.some.inj h
    rfl
  | other =>
    obtain rfl := Option.some.inj h
    rfl

theorem depthAfter_add {depth depth' : Nat} {events : List Event}
    (h : depthAfter depth events = some depth') (n : Nat) :
    depthAfter (n + depth) events = some (n + depth') := by
  induction events generalizing depth with
  | nil =>
    obtain rfl := Option.some.inj h
    rfl
  | cons event events ih =>
    rw [depthAfter, List.foldlM_cons] at h
    obtain ⟨depth₁, hevent, hrest⟩ := Option.bind_eq_some_iff.1 h
    rw [depthAfter, List.foldlM_cons, Event.depthAfter_add hevent n]
    exact ih hrest

def Event.content? : Event → Option (List Char)
  | .text run => (unescape run).toOption
  | .cdata content => some content
  | _ => some []

def contentOf? (events : List Event) : Option (List Char) :=
  (events.mapM Event.content?).map List.flatten

theorem contentOf?_concat (events : List Event) (event : Event) :
    contentOf? (events ++ [event]) =
      (contentOf? events).bind fun content => event.content?.map (content ++ ·) := by
  rw [contentOf?, contentOf?, List.mapM_append]
  cases events.mapM Event.content? with
  | none => rfl
  | some contents => cases hevent : event.content? <;> simp [hevent]

/-- What an event does to the open elements. -/
inductive Event.Moves : Event → List OpenElement → List OpenElement → Prop
  | start {name : Name} {element : OpenElement} {opened : List OpenElement} :
      Moves (.start name) opened (element :: opened)
  | stop {element : OpenElement} {opened : List OpenElement} : Moves .stop (element :: opened) opened
  | text {run : List Char} {opened : List OpenElement} : Moves (.text run) opened opened
  | cdata {content : List Char} {opened : List OpenElement} : Moves (.cdata content) opened opened
  | other {opened : List OpenElement} : Moves .other opened opened

namespace Event.Moves

variable {event : Event} {opened opened' inner outer : List OpenElement}

theorem depthAfter_length (h : event.Moves opened opened') :
    event.depthAfter opened.length = some opened'.length := by
  cases h <;> rfl

theorem exists_inner {depth : Nat} (h : event.Moves (inner ++ outer) opened')
    (hdepth : event.depthAfter inner.length = some depth) :
    ∃ inner', inner'.length = depth ∧ opened' = inner' ++ outer := by
  cases event with
  | start name =>
    obtain rfl := Option.some.inj hdepth
    cases h with
    | @start _ element => exact ⟨element :: inner, rfl, rfl⟩
  | stop =>
    cases inner with
    | nil => simp [Event.depthAfter] at hdepth
    | cons e inner =>
      obtain rfl := Option.some.inj hdepth
      cases h with
      | stop => exact ⟨inner, rfl, rfl⟩
  | text run =>
    obtain rfl := Option.some.inj hdepth
    cases h with
    | text => exact ⟨inner, rfl, rfl⟩
  | cdata content =>
    obtain rfl := Option.some.inj hdepth
    cases h with
    | cdata => exact ⟨inner, rfl, rfl⟩
  | other =>
    obtain rfl := Option.some.inj hdepth
    cases h with
    | other => exact ⟨inner, rfl, rfl⟩

end Event.Moves

namespace Reader

variable {r r' r'' : Reader} {event : Event} {events events' : List Event}

theorem moves_of_meet {m : Markup} {opened : List OpenElement} (h : r.meet m = .ok (event, opened)) :
    event.Moves r.opened opened := by
  cases m with
  | text run =>
    obtain ⟨rfl, rfl⟩ := Prod.mk.inj (Except.ok.inj h)
    exact .text
  | cdata content =>
    obtain ⟨rfl, rfl⟩ := Prod.mk.inj (Except.ok.inj h)
    exact .cdata
  | aside =>
    obtain ⟨rfl, rfl⟩ := Prod.mk.inj (Except.ok.inj h)
    exact .other
  | single tag =>
    obtain ⟨scope, -, heq⟩ := bind_eq_ok_iff.1 h
    obtain ⟨rfl, rfl⟩ := Prod.mk.inj (Except.ok.inj heq)
    exact .other
  | start tag =>
    obtain ⟨scope, -, heq⟩ := bind_eq_ok_iff.1 h
    obtain ⟨rfl, rfl⟩ := Prod.mk.inj (Except.ok.inj heq)
    exact .start
  | stop content =>
    rw [meet] at h
    split at h
    · simp at h
    · rename_i e outer hopened
      split at h
      · obtain ⟨rfl, rfl⟩ := Prod.mk.inj (Except.ok.inj h)
        rw [hopened]
        exact .stop
      · simp at h

theorem moves_of_next (h : r.next = .ok (some (event, r'))) : event.Moves r.opened r'.opened := by
  obtain ⟨m, -, hmeet⟩ := next_eq_ok_iff.1 h
  exact moves_of_meet hmeet

theorem eq_other_of_single {tag : Tag} {rest : List Char}
    (hsingle : readMarkup r.rest = .ok (some (.single tag, rest)))
    (h : r.next = .ok (some (event, r'))) : event = .other ∧ r'.opened = r.opened := by
  obtain ⟨m, hm, hmeet⟩ := next_eq_ok_iff.1 h
  obtain ⟨rfl, -⟩ := Prod.mk.inj (Option.some.inj (Except.ok.inj (hsingle.symm.trans hm)))
  obtain ⟨scope, -, heq⟩ := bind_eq_ok_iff.1 hmeet
  obtain ⟨rfl, hopened⟩ := Prod.mk.inj (Except.ok.inj heq)
  exact ⟨rfl, hopened.symm⟩

inductive Passes : Reader → List Event → Reader → Prop
  | nothing {r : Reader} : Passes r [] r
  | event {r r' r'' : Reader} {event : Event} {events : List Event}
      (hnext : r.next = .ok (some (event, r'))) (hrest : Passes r' events r'') :
      Passes r (event :: events) r''

def firstEvents : Nat → Reader → Option (List Event × Reader)
  | 0, r => some ([], r)
  | n + 1, r =>
    match r.next with
    | .ok (some (event, r')) =>
      (firstEvents n r').map fun (events, r'') => (event :: events, r'')
    | _ => none

namespace Passes

theorem of_firstEvents {n : Nat} (h : r.firstEvents n = some (events, r')) :
    Passes r events r' := by
  induction n generalizing r events with
  | zero =>
    obtain ⟨rfl, rfl⟩ := Prod.mk.inj (Option.some.inj h)
    exact .nothing
  | succ n ih =>
    rw [firstEvents] at h
    split at h
    · rename_i event r₁ hnext
      obtain ⟨⟨events', r₂⟩, hrest, heq⟩ := Option.map_eq_some_iff.1 h
      obtain ⟨rfl, rfl⟩ := Prod.mk.inj heq
      exact .event hnext (ih hrest)
    · simp at h

theorem append (h : Passes r events r') (h' : Passes r' events' r'') :
    Passes r (events ++ events') r'' := by
  induction h with
  | nothing => exact h'
  | event hnext _ ih => exact .event hnext (ih h')

theorem concat (h : Passes r events r') (hnext : r'.next = .ok (some (event, r''))) :
    Passes r (events ++ [event]) r'' :=
  h.append (.event hnext .nothing)

theorem exists_between (h : Passes r (events ++ events') r'') :
    ∃ r', Passes r events r' ∧ Passes r' events' r'' := by
  induction events generalizing r with
  | nil => exact ⟨r, .nothing, h⟩
  | cons event events ih =>
    cases h with
    | event hnext hrest =>
      obtain ⟨r', hpassed, hrest⟩ := ih hrest
      exact ⟨r', .event hnext hpassed, hrest⟩

theorem exists_before_last (h : Passes r (events ++ [event]) r'') :
    ∃ r', Passes r events r' ∧ r'.next = .ok (some (event, r'')) := by
  obtain ⟨r', hpassed, hlast⟩ := h.exists_between
  cases hlast with
  | event hnext hrest =>
    cases hrest
    exact ⟨r', hpassed, hnext⟩

theorem depthAfter_length (h : Passes r events r') :
    depthAfter r.opened.length events = some r'.opened.length := by
  induction h with
  | nothing => rfl
  | event hnext _ ih =>
    rw [depthAfter, List.foldlM_cons, (moves_of_next hnext).depthAfter_length]
    exact ih

theorem exists_inner {inner outer : List OpenElement} {depth : Nat} (h : Passes r events r')
    (hopened : r.opened = inner ++ outer) (hdepth : depthAfter inner.length events = some depth) :
    ∃ inner', inner'.length = depth ∧ r'.opened = inner' ++ outer := by
  induction h generalizing inner with
  | nothing =>
    obtain rfl := Option.some.inj hdepth
    exact ⟨inner, rfl, hopened⟩
  | event hnext _ ih =>
    rw [depthAfter, List.foldlM_cons] at hdepth
    obtain ⟨depth', hevent, hrest⟩ := Option.bind_eq_some_iff.1 hdepth
    have hmoves := moves_of_next hnext
    rw [hopened] at hmoves
    obtain ⟨inner', rfl, hopened'⟩ := hmoves.exists_inner hevent
    exact ih hopened' hrest

theorem suffix (h : Passes r events r') : r'.rest <:+ r.rest := by
  induction h with
  | nothing => exact List.suffix_refl _
  | event hnext _ ih => exact ih.trans (next_suffix hnext)

theorem withMore (h : Passes r events r') (hleft : r'.rest ≠ []) (more : List Char) :
    Passes (r.withMore more) events (r'.withMore more) := by
  induction h with
  | nothing => exact .nothing
  | @event r r' r'' event events hnext hrest ih =>
    rcases next_cut hnext with hmore | ⟨hend, -⟩
    · exact .event (hmore more) (ih hleft)
    · have hsuffix := hrest.suffix
      rw [hend] at hsuffix
      exact absurd (List.suffix_nil.1 hsuffix) hleft

end Passes
end Reader
end ServiceMetadata.Xml
