import ServiceMetadata.Proofs.Xml.Cuts

/-!
# What a reader has not read yet

What is left of a text after a piece of it is the text's end. So a text that ends in a `>` also ends
in one wherever a reader has come to, and a tag that takes up all that is left has its own `>`: it
is the same tag whatever follows.
-/
namespace ServiceMetadata.Xml

variable {s body rest : List Char} {m : Markup}

theorem splitAtClose_suffix {closes : List Char → Bool} {seen : List Char}
    (h : splitAtClose closes seen s = some (body, rest)) : rest <:+ s := by
  induction s generalizing seen with
  | nil => simp [splitAtClose] at h
  | cons c s ih =>
    rw [splitAtClose] at h
    split at h
    · obtain ⟨-, rfl⟩ := Prod.mk.inj (Option.some.inj h)
      exact List.suffix_cons c s
    · exact (ih h).trans (List.suffix_cons c s)

theorem splitAtTagEnd_suffix {seen : List Char} {quote : Option Char}
    (h : splitAtTagEnd seen quote s = some (body, rest)) : rest <:+ s := by
  induction s generalizing seen quote with
  | nil => simp [splitAtTagEnd] at h
  | cons c s ih =>
    cases quote with
    | some q =>
      rw [splitAtTagEnd] at h
      exact (ih h).trans (List.suffix_cons c s)
    | none =>
      rw [splitAtTagEnd] at h
      split at h
      · obtain ⟨-, rfl⟩ := Prod.mk.inj (Option.some.inj h)
        exact List.suffix_cons c s
      · exact (ih h).trans (List.suffix_cons c s)

theorem splitAtAngle_suffix (s : List Char) : (splitAtAngle s).2 <:+ s :=
  (List.drop_suffix 1 _).trans (List.dropWhile_suffix _)

theorem readBang_suffix (h : readBang s = .ok (m, rest)) : rest <:+ s := by
  unfold readBang at h
  split at h
  · simp at h
  split at h
  · unfold readComment at h
    split at h
    · rename_i hsplit
      obtain ⟨-, rfl⟩ := Prod.mk.inj (Except.ok.inj h)
      exact splitAtClose_suffix hsplit
    · simp at h
  split at h
  · unfold readCdata at h
    split at h
    · rename_i hsplit
      split at h
      · obtain ⟨-, rfl⟩ := Prod.mk.inj (Except.ok.inj h)
        exact splitAtClose_suffix hsplit
      · simp at h
    · simp at h
  split at h
  · unfold readDoctype at h
    split at h
    · rename_i hsplit
      split at h
      · simp at h
      split at h
      · simp at h
      · obtain ⟨-, rfl⟩ := Prod.mk.inj (Except.ok.inj h)
        exact splitAtClose_suffix hsplit
    · simp at h
  · simp at h

theorem readInstruction_suffix (h : readInstruction s = .ok (m, rest)) : rest <:+ s := by
  simp only [readInstruction] at h
  split at h
  · obtain ⟨-, rfl⟩ := Prod.mk.inj (Except.ok.inj h)
    exact splitAtAngle_suffix s
  · simp at h

theorem readStart_suffix (h : readStart s = .ok (m, rest)) : rest <:+ s := by
  unfold readStart at h
  split at h
  · rename_i hsplit
    obtain ⟨-, rfl⟩ := Prod.mk.inj (Except.ok.inj h)
    exact splitAtTagEnd_suffix hsplit
  · simp at h

theorem suffix_cons_cons {c d : Char} (h : rest <:+ s) : rest <:+ c :: d :: s :=
  h.trans ((List.suffix_cons d s).trans (List.suffix_cons c (d :: s)))

theorem readMarkup_suffix (h : readMarkup s = .ok (some (m, rest))) : rest <:+ s := by
  unfold readMarkup at h
  split at h
  · simp at h
  · simp at h
  · obtain ⟨p, hp, heq⟩ := map_eq_ok_iff.1 h
    obtain rfl := Option.some.inj heq
    exact suffix_cons_cons (readBang_suffix hp)
  · rename_i r
    obtain ⟨-, rfl⟩ := Prod.mk.inj (Option.some.inj (Except.ok.inj h))
    exact suffix_cons_cons (splitAtAngle_suffix r)
  · obtain ⟨p, hp, heq⟩ := map_eq_ok_iff.1 h
    obtain rfl := Option.some.inj heq
    exact suffix_cons_cons (readInstruction_suffix hp)
  · obtain ⟨p, hp, heq⟩ := map_eq_ok_iff.1 h
    obtain rfl := Option.some.inj heq
    exact (readStart_suffix hp).trans (List.suffix_cons _ _)
  · obtain ⟨-, rfl⟩ := Prod.mk.inj (Option.some.inj (Except.ok.inj h))
    exact List.dropWhile_suffix _

/-! ## Tags that are complete -/

theorem readBang_ne_stop {content : List Char} : readBang s ≠ .ok (.stop content, rest) := by
  unfold readBang readComment readCdata readDoctype
  repeat' split
  all_goals simp

theorem readStart_ne_stop {content : List Char} : readStart s ≠ .ok (.stop content, rest) := by
  unfold readStart tagOfContent
  repeat' split
  all_goals simp

theorem eq_of_readMarkup_stop {content : List Char}
    (h : readMarkup s = .ok (some (.stop content, rest))) :
    ∃ r, s = '<' :: '/' :: r ∧ splitAtAngle r = (content, rest) := by
  unfold readMarkup at h
  split at h
  · simp at h
  · simp at h
  · obtain ⟨p, hp, heq⟩ := map_eq_ok_iff.1 h
    obtain rfl := Option.some.inj heq
    exact absurd hp readBang_ne_stop
  · rename_i r
    simp only [readStop, Except.ok.injEq, Option.some.injEq, Prod.mk.injEq, Markup.stop.injEq] at h
    exact ⟨r, rfl, Prod.ext h.1 h.2⟩
  · obtain ⟨p, hp, heq⟩ := map_eq_ok_iff.1 h
    obtain rfl := Option.some.inj heq
    simp only [readInstruction] at hp
    split at hp <;> simp at hp
  · obtain ⟨p, hp, heq⟩ := map_eq_ok_iff.1 h
    obtain rfl := Option.some.inj heq
    exact absurd hp readStart_ne_stop
  · simp at h

theorem dropWhile_angle_ne_nil (h : '>' ∈ s) : s.dropWhile (· ≠ '>') ≠ [] := by
  intro hnil
  have hall := List.takeWhile_append_dropWhile (p := (· ≠ '>')) (l := s)
  rw [hnil, List.append_nil] at hall
  have hne := List.all_eq_true.1 List.all_takeWhile '>' (hall ▸ h)
  simp at hne

theorem readMarkup_stop_more {content : List Char} (hangle : s.getLast? = some '>')
    (h : readMarkup s = .ok (some (.stop content, rest))) (more : List Char) :
    readMarkup (s ++ more) = .ok (some (.stop content, rest ++ more)) := by
  obtain ⟨r, rfl, hsplit⟩ := eq_of_readMarkup_stop h
  have hmem : '>' ∈ r := by
    cases r with
    | nil => simp at hangle
    | cons c r => exact List.mem_of_getLast? hangle
  rw [List.cons_append, List.cons_append, readMarkup, readStop,
    splitAtAngle_more (dropWhile_angle_ne_nil hmem), hsplit]

inductive Event.IsTag : Event → Prop
  | start (name : Name) : IsTag (.start name)
  | stop : IsTag .stop

namespace Reader

variable {r r' : Reader} {event : Event}

theorem next_suffix (h : r.next = .ok (some (event, r'))) : r'.rest <:+ r.rest := by
  obtain ⟨m, hm, -⟩ := next_eq_ok_iff.1 h
  exact readMarkup_suffix hm

theorem eq_stop_of_meet {m : Markup} {opened : List OpenElement}
    (h : r.meet m = .ok (.stop, opened)) : ∃ content, m = .stop content := by
  cases m with
  | stop content => exact ⟨content, rfl⟩
  | text run => simp [meet] at h
  | cdata content => simp [meet] at h
  | aside => simp [meet] at h
  | single tag =>
    obtain ⟨scope, -, heq⟩ := bind_eq_ok_iff.1 h
    simp [pure, Except.pure] at heq
  | start tag =>
    obtain ⟨scope, -, heq⟩ := bind_eq_ok_iff.1 h
    simp [pure, Except.pure] at heq

theorem next_tag_more (htag : event.IsTag) (hangle : r.rest.getLast? = some '>')
    (h : r.next = .ok (some (event, r'))) (more : List Char) :
    (r.withMore more).next = .ok (some (event, r'.withMore more)) := by
  rcases next_cut h with hmore | ⟨-, hcut⟩
  · exact hmore more
  cases htag with
  | start name => cases hcut
  | stop =>
    obtain ⟨m, hm, hmeet⟩ := next_eq_ok_iff.1 h
    obtain ⟨content, rfl⟩ := eq_stop_of_meet hmeet
    exact next_eq_ok_iff.2 ⟨_, readMarkup_stop_more hangle hm more,
      (r.meet_withMore more _).trans hmeet⟩

end Reader
end ServiceMetadata.Xml
