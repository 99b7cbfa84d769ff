import ServiceMetadata.Xml.Reader
import ServiceMetadata.Proofs.Except
import ServiceMetadata.Proofs.Xml.Markup

/-!
# Reading a text that breaks off

A piece that ends before the text does is the same piece whatever follows. Only the last piece may
be cut: a run of character data goes on with what follows, an end tag may lack its `>`, and so may
an instruction.
-/
namespace ServiceMetadata.Xml

variable {s body rest : List Char} {m : Markup}

theorem splitAtClose_more {closes : List Char → Bool} {seen : List Char}
    (h : splitAtClose closes seen s = some (body, rest)) (more : List Char) :
    splitAtClose closes seen (s ++ more) = some (body, rest ++ more) := by
  induction s generalizing seen with
  | nil => simp [splitAtClose] at h
  | cons c s ih =>
    rw [splitAtClose] at h
    rw [List.cons_append, splitAtClose]
    split at h
    · rename_i hclose
      obtain ⟨rfl, rfl⟩ := Prod.mk.inj (Option.some.inj h)
      rw [if_pos hclose]
    · rename_i hopen
      rw [if_neg hopen, ih h]

theorem splitAtTagEnd_more {seen : List Char} {quote : Option Char}
    (h : splitAtTagEnd seen quote s = some (body, rest)) (more : List Char) :
    splitAtTagEnd seen quote (s ++ more) = some (body, rest ++ more) := by
  induction s generalizing seen quote with
  | nil => simp [splitAtTagEnd] at h
  | cons c s ih =>
    rw [List.cons_append]
    cases quote with
    | some q =>
      rw [splitAtTagEnd] at h ⊢
      exact ih h
    | none =>
      rw [splitAtTagEnd] at h ⊢
      split at h
      · rename_i hend
        obtain ⟨rfl, rfl⟩ := Prod.mk.inj (Option.some.inj h)
        rw [if_pos hend]
      · rename_i hgoes
        rw [if_neg hgoes, ih h]

theorem takeWhile_more {p : Char → Bool} (h : s.dropWhile p ≠ []) (more : List Char) :
    (s ++ more).takeWhile p = s.takeWhile p ∧ (s ++ more).dropWhile p = s.dropWhile p ++ more := by
  induction s with
  | nil => simp at h
  | cons c s ih =>
    by_cases hc : p c = true
    · rw [List.dropWhile_cons_of_pos hc] at h
      simpa [hc] using ih h
    · simp [hc]

theorem readComment_more (h : readComment s = .ok (m, rest)) (more : List Char) :
    readComment (s ++ more) = .ok (m, rest ++ more) := by
  unfold readComment at h
  split at h
  · rename_i hsplit
    obtain ⟨rfl, rfl⟩ := Prod.mk.inj (Except.ok.inj h)
    rw [readComment, splitAtClose_more hsplit]
    rfl
  · simp at h

theorem readCdata_more (h : readCdata s = .ok (m, rest)) (more : List Char) :
    readCdata (s ++ more) = .ok (m, rest ++ more) := by
  unfold readCdata at h
  split at h
  · rename_i hsplit
    split at h
    · rename_i hword
      obtain ⟨rfl, rfl⟩ := Prod.mk.inj (Except.ok.inj h)
      simp only [readCdata, splitAtClose_more hsplit, hword, if_true]
    · simp at h
  · simp at h

theorem readDoctype_more (h : readDoctype s = .ok (m, rest)) (more : List Char) :
    readDoctype (s ++ more) = .ok (m, rest ++ more) := by
  unfold readDoctype at h
  split at h
  · rename_i hsplit
    split at h
    · simp at h
    rename_i hword
    split at h
    · simp at h
    rename_i hblank
    obtain ⟨rfl, rfl⟩ := Prod.mk.inj (Except.ok.inj h)
    simp only [readDoctype, splitAtClose_more hsplit, if_neg hword, if_neg hblank]
  · simp at h

theorem readBang_more (h : readBang s = .ok (m, rest)) (more : List Char) :
    readBang (s ++ more) = .ok (m, rest ++ more) := by
  cases s with
  | nil => simp [readBang] at h
  | cons c s =>
    simp only [readBang, List.cons_append] at h ⊢
    split at h
    · rename_i hdash
      rw [if_pos hdash]
      exact readComment_more h more
    rename_i hdash
    rw [if_neg hdash]
    split at h
    · rename_i hbracket
      rw [if_pos hbracket]
      exact readCdata_more h more
    rename_i hbracket
    rw [if_neg hbracket]
    split at h
    · rename_i hletter
      rw [if_pos hletter]
      exact readDoctype_more h more
    · simp at h

theorem readStart_more (h : readStart s = .ok (m, rest)) (more : List Char) :
    readStart (s ++ more) = .ok (m, rest ++ more) := by
  unfold readStart at h
  split at h
  · rename_i hsplit
    obtain ⟨rfl, rfl⟩ := Prod.mk.inj (Except.ok.inj h)
    rw [readStart, splitAtTagEnd_more hsplit]
  · simp at h

theorem splitAtAngle_more (h : s.dropWhile (· ≠ '>') ≠ []) (more : List Char) :
    splitAtAngle (s ++ more) = ((splitAtAngle s).1, (splitAtAngle s).2 ++ more) := by
  obtain ⟨htake, hdrop⟩ := takeWhile_more h more
  obtain ⟨c, r, hr⟩ := List.exists_cons_of_ne_nil h
  simp only [splitAtAngle, htake, hdrop, hr]
  rfl

theorem splitAtAngle_cut (s : List Char) :
    (∀ more, splitAtAngle (s ++ more) = ((splitAtAngle s).1, (splitAtAngle s).2 ++ more)) ∨
      (splitAtAngle s).2 = [] := by
  by_cases h : s.dropWhile (· ≠ '>') = []
  · right
    rw [splitAtAngle, h]
    rfl
  · exact .inl (splitAtAngle_more h)

theorem readInstruction_cut (h : readInstruction s = .ok (m, rest)) :
    (∀ more, readInstruction (s ++ more) = .ok (m, rest ++ more)) ∨ rest = [] ∧ m = .aside := by
  simp only [readInstruction] at h
  split at h
  · rename_i hmark
    obtain ⟨rfl, rfl⟩ := Prod.mk.inj (Except.ok.inj h)
    rcases splitAtAngle_cut s with hmore | hend
    · left
      intro more
      simp only [readInstruction, hmore, if_pos hmark]
    · exact .inr ⟨hend, rfl⟩
  · simp at h

theorem readMarkup_of_letter {c : Char} (hbang : c ≠ '!') (hslash : c ≠ '/')
    (hquestion : c ≠ '?') (s : List Char) :
    readMarkup ('<' :: c :: s) = (readStart (c :: s)).map some := by
  unfold readMarkup
  split <;> simp_all

/-- The last piece of a text, if it need not be the same in a longer one. -/
inductive Cut (s : List Char) : Markup → Prop
  | text (htext : ∀ more, ∃ run rest, readMarkup (s ++ more) = .ok (some (.text (s ++ run), rest))) :
      Cut s (.text s)
  | stop {content : List Char}
      (hstop : ∀ more, ∃ content' rest, readMarkup (s ++ more) = .ok (some (.stop content', rest))) :
      Cut s (.stop content)
  | aside : Cut s .aside

theorem readMarkup_cut (h : readMarkup s = .ok (some (m, rest))) :
    (∀ more, readMarkup (s ++ more) = .ok (some (m, rest ++ more))) ∨ rest = [] ∧ Cut s m := by
  unfold readMarkup at h
  split at h
  · simp at h
  · simp at h
  · obtain ⟨p, hp, heq⟩ := map_eq_ok_iff.1 h
    obtain rfl := Option.some.inj heq
    left
    intro more
    rw [List.cons_append, List.cons_append, readMarkup, readBang_more hp more]
    rfl
  · rename_i r
    have hstop : readStop r = (m, rest) := Option.some.inj (Except.ok.inj h)
    obtain ⟨rfl, rfl⟩ := Prod.mk.inj hstop
    rcases splitAtAngle_cut r with hmore | hend
    · left
      intro more
      simp only [List.cons_append, readMarkup, readStop, hmore]
      rfl
    · exact .inr ⟨hend, .stop fun more => ⟨_, _, rfl⟩⟩
  · obtain ⟨p, hp, heq⟩ := map_eq_ok_iff.1 h
    obtain rfl := Option.some.inj heq
    rcases readInstruction_cut hp with hmore | ⟨hend, rfl⟩
    · left
      intro more
      rw [List.cons_append, List.cons_append, readMarkup, hmore]
      rfl
    · exact .inr ⟨hend, .aside⟩
  · rename_i r hnil hbang hslash hquestion
    obtain ⟨p, hp, heq⟩ := map_eq_ok_iff.1 h
    obtain rfl := Option.some.inj heq
    obtain ⟨c, r, rfl⟩ := List.exists_cons_of_ne_nil (show r ≠ [] from hnil)
    left
    intro more
    have hletter := readMarkup_of_letter (c := c) (fun hc => hbang r (by rw [hc]))
      (fun hc => hslash r (by rw [hc])) (fun hc => hquestion r (by rw [hc])) (r ++ more)
    have hstart := readStart_more hp more
    rw [List.cons_append] at hstart
    rw [List.cons_append, List.cons_append, hletter, hstart]
    rfl
  · rename_i hnil _ _ _ _ hlt
    obtain ⟨rfl, rfl⟩ := Prod.mk.inj (Option.some.inj (Except.ok.inj h))
    by_cases hend : s.dropWhile (· ≠ '<') = []
    · right
      have hrun : s.takeWhile (· ≠ '<') = s := by
        have happend := List.takeWhile_append_dropWhile (p := (· ≠ '<')) (l := s)
        rwa [hend, List.append_nil] at happend
      rw [hrun]
      refine ⟨hend, .text fun more => ⟨more.takeWhile (· ≠ '<'), more.dropWhile (· ≠ '<'), ?_⟩⟩
      obtain ⟨c, r, rfl⟩ := List.exists_cons_of_ne_nil hnil
      have hc : c ≠ '<' := fun hc => hlt r (by rw [hc])
      have hall : ∀ x ∈ c :: r, decide (x ≠ '<') = true := by
        rw [← hrun]
        exact List.all_eq_true.1 List.all_takeWhile
      rw [← List.takeWhile_append_of_pos hall, ← List.dropWhile_append_of_pos hall]
      exact readMarkup_of_ne_lt hc (r ++ more)
    · left
      intro more
      obtain ⟨htake, hdrop⟩ := takeWhile_more hend more
      obtain ⟨c, r, rfl⟩ := List.exists_cons_of_ne_nil hnil
      have hc : c ≠ '<' := fun hc => hlt r (by rw [hc])
      rw [← htake, ← hdrop]
      exact readMarkup_of_ne_lt hc (r ++ more)

namespace Reader

variable {r r' : Reader} {event : Event}

def withMore (r : Reader) (more : List Char) : Reader := { r with rest := r.rest ++ more }

theorem next_eq_ok_iff {p : Event × Reader} :
    r.next = .ok (some p) ↔ ∃ m, readMarkup r.rest = .ok (some (m, p.2.rest)) ∧
      r.meet m = .ok (p.1, p.2.opened) := by
  unfold next
  constructor
  · intro h
    split at h
    · simp at h
    · simp at h
    · rename_i m rest hm
      split at h
      · simp at h
      · rename_i hmeet
        obtain rfl := Option.some.inj (Except.ok.inj h)
        exact ⟨m, hm, hmeet⟩
  · rintro ⟨m, hm, hmeet⟩
    rw [hm]
    simp only [hmeet]

theorem next_eq_none_iff : r.next = .ok none ↔ readMarkup r.rest = .ok none := by
  unfold next
  split
  · simp_all
  · simp_all
  · rename_i hm
    rw [hm]
    split <;> simp

theorem meet_withMore (r : Reader) (more : List Char) (m : Markup) :
    (r.withMore more).meet m = r.meet m := by
  cases m <;> rfl

theorem meet_stop {content : List Char} {opened : List OpenElement}
    (h : r.meet (.stop content) = .ok (event, opened)) :
    event = .stop ∧ opened = r.opened.tail := by
  rw [meet] at h
  split at h
  · simp at h
  · rename_i hopened
    split at h
    · obtain ⟨rfl, rfl⟩ := Prod.mk.inj (Except.ok.inj h)
      rw [hopened]
      exact ⟨rfl, rfl⟩
    · simp at h

/-- The last event of a text, if it need not be the same in a longer one. -/
inductive CutShort (r r' : Reader) : Event → Prop
  | text (hopened : r'.opened = r.opened)
      (htext : ∀ more, ∃ run rest, (r.withMore more).next =
        .ok (some (.text (r.rest ++ run), { r' with rest }))) :
      CutShort r r' (.text r.rest)
  | stop
      (hstop : ∀ more p, (r.withMore more).next = .ok p → ∃ rest, p = some (.stop, { r' with rest })) :
      CutShort r r' .stop
  | other (hopened : r'.opened = r.opened) : CutShort r r' .other

theorem next_cut (h : r.next = .ok (some (event, r'))) :
    (∀ more, (r.withMore more).next = .ok (some (event, r'.withMore more))) ∨
      r'.rest = [] ∧ CutShort r r' event := by
  obtain ⟨m, hm, hmeet⟩ := next_eq_ok_iff.1 h
  rcases readMarkup_cut hm with hmore | ⟨hend, hcut⟩
  · left
    intro more
    exact next_eq_ok_iff.2 ⟨m, hmore more, (r.meet_withMore more m).trans hmeet⟩
  right
  refine ⟨hend, ?_⟩
  cases hcut with
  | text htext =>
    obtain ⟨rfl, hopened⟩ := Prod.mk.inj (Except.ok.inj hmeet)
    refine .text hopened.symm fun more => ?_
    obtain ⟨run, rest, hrun⟩ := htext more
    refine ⟨run, rest, next_eq_ok_iff.2 ⟨_, hrun, ?_⟩⟩
    rw [meet_withMore, ← hopened]
    rfl
  | stop hstop =>
    obtain ⟨rfl, hopened⟩ := meet_stop hmeet
    refine .stop fun more p hp => ?_
    obtain ⟨content, rest, hread⟩ := hstop more
    cases p with
    | none =>
      rw [next_eq_none_iff] at hp
      exact absurd (hread.symm.trans hp) (by simp)
    | some p =>
      obtain ⟨m, hm, hmeet'⟩ := next_eq_ok_iff.1 hp
      obtain ⟨rfl, hrest⟩ := Prod.mk.inj (Option.some.inj (Except.ok.inj (hread.symm.trans hm)))
      obtain ⟨event, opened', rest'⟩ := p
      obtain ⟨rfl, hopened'⟩ := meet_stop hmeet'
      have hsame : opened' = r'.opened := hopened'.trans hopened.symm
      exact ⟨rest', by rw [hsame]⟩
  | aside =>
    obtain ⟨rfl, hopened⟩ := Prod.mk.inj (Except.ok.inj hmeet)
    exact .other hopened.symm

end Reader
end ServiceMetadata.Xml
