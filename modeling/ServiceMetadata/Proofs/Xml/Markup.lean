import ServiceMetadata.Xml.Markup
import ServiceMetadata.Proofs.Xml.Tree

/-!
# Cutting a written tree into pieces

The text of every part of a tree is cut off as one piece, whatever follows it.
-/
namespace ServiceMetadata.Xml

variable {s rest : List Char}

theorem decide_ne_of_not_mem {x : Char} (h : x ∉ s) : ∀ c ∈ s, decide (c ≠ x) = true := by
  intro c hc
  exact decide_eq_true fun heq => h (heq ▸ hc)

theorem dropWhile_eq_self {p : Char → Bool} (h : s.takeWhile p = []) : s.dropWhile p = s := by
  have happend := List.takeWhile_append_dropWhile (p := p) (l := s)
  rwa [h] at happend

theorem readMarkup_of_ne_lt {c : Char} (hc : c ≠ '<') (s : List Char) :
    readMarkup (c :: s) =
      .ok (some (.text ((c :: s).takeWhile (· ≠ '<')), (c :: s).dropWhile (· ≠ '<'))) := by
  unfold readMarkup
  split <;> simp_all

theorem readMarkup_text (h : s ≠ []) (hlt : '<' ∉ s) (hrest : rest.takeWhile (· ≠ '<') = []) :
    readMarkup (s ++ rest) = .ok (some (.text s, rest)) := by
  have hall := decide_ne_of_not_mem hlt
  have hcut : readMarkup (s ++ rest) =
      .ok (some (.text ((s ++ rest).takeWhile (· ≠ '<')), (s ++ rest).dropWhile (· ≠ '<'))) := by
    obtain ⟨c, s, rfl⟩ := List.exists_cons_of_ne_nil h
    exact readMarkup_of_ne_lt (by simpa using hall c List.mem_cons_self) _
  rw [hcut, List.takeWhile_append_of_pos hall, List.dropWhile_append_of_pos hall, hrest,
    dropWhile_eq_self hrest, List.append_nil]

theorem splitAtClose_append {closes : List Char → Bool} {seen body : List Char}
    (hbody : ∀ before after, body = before ++ '>' :: after →
      closes (before.reverse ++ seen) = false)
    (hclose : closes (body.reverse ++ seen) = true) (rest : List Char) :
    splitAtClose closes seen (body ++ '>' :: rest) = some (seen.reverse ++ body, rest) := by
  induction body generalizing seen with
  | nil =>
    have hseen : closes seen = true := hclose
    simp [splitAtClose, hseen]
  | cons c body ih =>
    have hopen : (c = '>' && closes seen) = false := by
      by_cases hc : c = '>'
      · have hseen := hbody [] body (by rw [hc]; rfl)
        simpa [hc] using hseen
      · simp [hc]
    rw [List.cons_append, splitAtClose, hopen, if_neg Bool.false_ne_true, ih]
    · simp
    · intro before after hsplit
      have hlater := hbody (c :: before) after (by rw [hsplit]; rfl)
      simpa using hlater
    · simpa using hclose

theorem infix_of_earlier_close {x : Char} (hx : x ≠ '>') {content before after : List Char}
    (h : content ++ [x, x] = before ++ [x, x, '>'] ++ after) : [x, x, '>'] <:+: content := by
  rcases List.append_eq_append_iff.1 h with ⟨middle, hbefore, hxx⟩ | ⟨middle, hcontent, -⟩
  · have hlast : (before ++ [x, x, '>']).getLast? = some '>' := by simp
    rw [hbefore] at hlast
    cases middle with
    | nil => exact ⟨before, [], by simpa using hbefore⟩
    | cons c middle =>
      have hmem : '>' ∈ [x, x] := by
        rw [hxx]
        apply List.mem_append_left
        obtain ⟨y, hy⟩ := Option.isSome_iff_exists.1
          (List.getLast?_isSome.2 (List.cons_ne_nil c middle))
        rw [List.getLast?_append, hy, Option.some_or] at hlast
        exact List.mem_of_getLast? (hlast ▸ hy)
      simp [Ne.symm hx] at hmem
  · exact ⟨before, middle, hcontent.symm⟩

theorem splitAtAngle_append {body : List Char} (h : '>' ∉ body) (rest : List Char) :
    splitAtAngle (body ++ '>' :: rest) = (body, rest) := by
  have hall := decide_ne_of_not_mem h
  rw [splitAtAngle, List.takeWhile_append_of_pos hall, List.dropWhile_append_of_pos hall]
  simp

theorem eq_of_startsWithCommentEnd (h : startsWithCommentEnd s = true) :
    ∃ r, s = '-' :: '-' :: r := by
  unfold startsWithCommentEnd at h
  split at h
  · exact ⟨_, rfl⟩
  · simp at h

theorem eq_of_closesCdata (h : closesCdata s = true) : ∃ r, s = ']' :: ']' :: r := by
  unfold closesCdata at h
  split at h
  · exact ⟨_, rfl⟩
  · simp at h

namespace Tree

theorem Comment.open_before_end (c : Comment) {before after : List Char}
    (h : '-' :: '-' :: (c.content ++ ['-', '-']) = before ++ '>' :: after) :
    closesComment before.reverse = false := by
  rw [Bool.eq_false_iff]
  intro hclose
  simp only [closesComment, Bool.and_eq_true, decide_eq_true_eq, List.length_reverse] at hclose
  obtain ⟨hlength, hend⟩ := hclose
  obtain ⟨r, hr⟩ := eq_of_startsWithCommentEnd hend
  have hbefore : before = r.reverse ++ ['-', '-'] := by simpa using congrArg List.reverse hr
  subst hbefore
  -- The two dashes that a comment begins with are none of those that would end it.
  obtain ⟨x, y, r', hr'⟩ : ∃ x y r', r.reverse = x :: y :: r' := by
    cases hrev : r.reverse with
    | nil => simp [hrev] at hlength
    | cons x r'' =>
      cases r'' with
      | nil => simp [hrev] at hlength
      | cons y r' => exact ⟨x, y, r', rfl⟩
  have hcontent : c.content ++ ['-', '-'] = r' ++ ['-', '-', '>'] ++ after := by
    rw [hr'] at h
    simpa using (List.cons.inj (List.cons.inj h).2).2
  obtain ⟨pre, post, hinfix⟩ := infix_of_earlier_close (by decide) hcontent
  exact c.unclosed ⟨pre, '>' :: post, by simp [← hinfix]⟩

theorem Comment.readMarkup_render (c : Comment) (rest : List Char) :
    readMarkup (c.render ++ rest) = .ok (some (.aside, rest)) := by
  have hclose : closesComment (('-' :: '-' :: (c.content ++ ['-', '-'])).reverse ++ []) = true := by
    simp [closesComment, startsWithCommentEnd]
  have hopen : ∀ before after, '-' :: '-' :: (c.content ++ ['-', '-']) = before ++ '>' :: after →
      closesComment (before.reverse ++ []) = false := by
    intro before after h
    rw [List.append_nil]
    exact c.open_before_end h
  have hsplit := splitAtClose_append hopen hclose rest
  have hread : readComment ('-' :: '-' :: (c.content ++ ['-', '-']) ++ '>' :: rest) =
      .ok (.aside, rest) := by
    rw [readComment, hsplit]
    rfl
  have hrender : c.render ++ rest =
      '<' :: '!' :: ('-' :: '-' :: (c.content ++ ['-', '-']) ++ '>' :: rest) := by
    simp [Comment.render]
  have hbang : readBang ('-' :: '-' :: (c.content ++ ['-', '-']) ++ '>' :: rest) =
      readComment ('-' :: '-' :: (c.content ++ ['-', '-']) ++ '>' :: rest) := rfl
  rw [hrender, readMarkup, hbang, hread]
  rfl

theorem Cdata.open_before_end (c : Cdata) {before after : List Char}
    (h : cdataWord ++ (c.content ++ [']', ']']) = before ++ '>' :: after) :
    closesCdata before.reverse = false := by
  rw [Bool.eq_false_iff]
  intro hclose
  obtain ⟨r, hr⟩ := eq_of_closesCdata hclose
  have hbefore : before = r.reverse ++ [']', ']'] := by simpa using congrArg List.reverse hr
  subst hbefore
  rw [List.append_assoc] at h
  rcases List.append_eq_append_iff.1 h with ⟨r', -, hcontent⟩ | ⟨middle, hword, hmiddle⟩
  · have hearlier : c.content ++ [']', ']'] = r' ++ [']', ']', '>'] ++ after := by
      simpa using hcontent
    exact c.unclosed (infix_of_earlier_close (by decide) hearlier)
  · cases middle with
    | nil =>
      have hearlier : c.content ++ [']', ']'] = [] ++ [']', ']', '>'] ++ after := by
        simpa using hmiddle.symm
      exact c.unclosed (infix_of_earlier_close (by decide) hearlier)
    | cons x middle =>
      have hx : x = ']' := (List.cons.inj hmiddle).1.symm
      have hmem : x ∈ cdataWord := by
        rw [hword]
        simp
      rw [hx] at hmem
      exact absurd hmem (by decide)

theorem Cdata.readMarkup_render (c : Cdata) (rest : List Char) :
    readMarkup (c.render ++ rest) = .ok (some (.cdata c.content, rest)) := by
  have hclose : closesCdata ((cdataWord ++ (c.content ++ [']', ']'])).reverse ++ []) = true := by
    simp [closesCdata]
  have hopen : ∀ before after, cdataWord ++ (c.content ++ [']', ']']) = before ++ '>' :: after →
      closesCdata (before.reverse ++ []) = false := by
    intro before after h
    rw [List.append_nil]
    exact c.open_before_end h
  have hsplit := splitAtClose_append hopen hclose rest
  have hdrop : (cdataWord ++ (c.content ++ [']', ']'])).dropLast.dropLast =
      cdataWord ++ c.content := by
    have happend : cdataWord ++ (c.content ++ [']', ']']) =
        cdataWord ++ c.content ++ [']'] ++ [']'] := by
      simp
    rw [happend, List.dropLast_concat, List.dropLast_concat]
  have hread : readCdata (cdataWord ++ (c.content ++ [']', ']']) ++ '>' :: rest) =
      .ok (.cdata c.content, rest) := by
    rw [readCdata, hsplit]
    simp only [List.reverse_nil, List.nil_append, hdrop]
    rfl
  have hrender : c.render ++ rest =
      '<' :: '!' :: (cdataWord ++ (c.content ++ [']', ']']) ++ '>' :: rest) := by
    simp [Cdata.render]
  have hbang : readBang (cdataWord ++ (c.content ++ [']', ']']) ++ '>' :: rest) =
      readCdata (cdataWord ++ (c.content ++ [']', ']']) ++ '>' :: rest) := rfl
  rw [hrender, readMarkup, hbang, hread]
  rfl

theorem Instruction.readMarkup_render (i : Instruction) (rest : List Char) :
    readMarkup (i.render ++ rest) = .ok (some (.aside, rest)) := by
  have hbody : '>' ∉ i.content ++ ['?'] := by simpa using i.unclosed
  have hrender : i.render ++ rest = '<' :: '?' :: (i.content ++ ['?'] ++ '>' :: rest) := by
    simp [Instruction.render]
  have hread : readInstruction (i.content ++ ['?'] ++ '>' :: rest) = .ok (.aside, rest) := by
    rw [readInstruction, splitAtAngle_append hbody]
    simpa using i.nonempty
  rw [hrender, readMarkup, hread]
  rfl

/-! ## Tags -/

theorem QualifiedName.char_of_mem_render {n : QualifiedName} {c : Char} (h : c ∈ n.render) :
    isNameChar c = true ∨ c = ':' := by
  obtain ⟨qualifier, name⟩ := n
  cases qualifier with
  | none => exact .inl (name.plain c h)
  | some q =>
    rcases List.mem_append.1 h with h | h
    · exact .inl (q.plain c h)
    · rcases List.mem_cons.1 h with h | h
      · exact .inr h
      · exact .inl (name.plain c h)

theorem QualifiedName.not_isSpace_of_mem_render {n : QualifiedName} {c : Char}
    (h : c ∈ n.render) : isSpace c = false := by
  rcases n.char_of_mem_render h with h | rfl
  · simpa using (Bool.and_eq_true_iff.1 h).1
  · rfl

theorem QualifiedName.ne_of_mem_render {n : QualifiedName} {c x : Char} (h : c ∈ n.render)
    (hx : x ∈ ['<', '>', '/', '=', '"', '\'', '!', '?', '&']) : c ≠ x := by
  rintro rfl
  rcases n.char_of_mem_render h with hname | rfl
  · have hmem : c ∈ reserved := List.mem_append_left [':'] hx
    simp [isNameChar, hmem] at hname
  · exact absurd hx (by decide)

theorem QualifiedName.render_ne_nil (n : QualifiedName) : n.render ≠ [] := by
  obtain ⟨qualifier, name⟩ := n
  cases qualifier with
  | none => exact name.nonempty
  | some q => simp [QualifiedName.render]

theorem readMarkup_end (t : WrittenTag) (after : Spaces) (rest : List Char) :
    readMarkup (t.renderEnd after ++ rest) =
      .ok (some (.stop (t.name.render ++ after.chars), rest)) := by
  have hbody : '>' ∉ t.name.render ++ after.chars := by
    intro hmem
    rcases List.mem_append.1 hmem with hmem | hmem
    · exact t.name.ne_of_mem_render hmem (by simp) rfl
    · exact isSpace_ne (after.spaces _ hmem) (by decide) rfl
  have hrender : t.renderEnd after ++ rest =
      '<' :: '/' :: (t.name.render ++ after.chars ++ '>' :: rest) := by
    simp [WrittenTag.renderEnd]
  rw [hrender, readMarkup, readStop, splitAtAngle_append hbody]

def isTagMark (c : Char) : Bool := c = '>' || c = '\'' || c = '"'

/-- The quotation marks come in pairs, and no `>` stands outside them. -/
def Balanced (s : List Char) : Prop :=
  ∀ seen rest, splitAtTagEnd seen none (s ++ rest) = splitAtTagEnd (s.reverse ++ seen) none rest

namespace Balanced

theorem append {s s' : List Char} (h : Balanced s) (h' : Balanced s') : Balanced (s ++ s') := by
  intro seen rest
  rw [List.append_assoc, h, h', List.reverse_append, List.append_assoc]

theorem plain {s : List Char} (h : s.all (!isTagMark ·) = true) : Balanced s := by
  induction s with
  | nil =>
    intro seen rest
    rfl
  | cons c s ih =>
    intro seen rest
    rw [List.all_cons, Bool.and_eq_true] at h
    obtain ⟨hc, hs⟩ := h
    simp only [isTagMark, Bool.not_eq_true', Bool.or_eq_false_iff, decide_eq_false_iff_not] at hc
    obtain ⟨⟨hangle, hsingle⟩, hdouble⟩ := hc
    rw [List.cons_append, splitAtTagEnd]
    simp only [hangle, hsingle, hdouble, decide_false, Bool.or_false, Bool.false_eq_true, if_false]
    rw [ih hs]
    simp

theorem ofSpaces (s : Spaces) : Balanced s.chars := by
  apply plain
  rw [List.all_eq_true]
  intro c hc
  have hangle : c ≠ '>' := isSpace_ne (s.spaces c hc) (by decide)
  have hsingle : c ≠ '\'' := isSpace_ne (s.spaces c hc) (by decide)
  have hdouble : c ≠ '"' := isSpace_ne (s.spaces c hc) (by decide)
  simp [isTagMark, hangle, hsingle, hdouble]

theorem ofName (n : QualifiedName) : Balanced n.render := by
  apply plain
  rw [List.all_eq_true]
  intro c hc
  have hangle : c ≠ '>' := n.ne_of_mem_render hc (by simp)
  have hsingle : c ≠ '\'' := n.ne_of_mem_render hc (by simp)
  have hdouble : c ≠ '"' := n.ne_of_mem_render hc (by simp)
  simp [isTagMark, hangle, hsingle, hdouble]

theorem quoted_from {q : Char} {value : List Char} (h : q ∉ value) (seen rest : List Char) :
    splitAtTagEnd seen (some q) (value ++ q :: rest) =
      splitAtTagEnd (q :: (value.reverse ++ seen)) none rest := by
  induction value generalizing seen with
  | nil => simp [splitAtTagEnd]
  | cons c value ih =>
    rw [List.mem_cons, not_or] at h
    rw [List.cons_append, splitAtTagEnd]
    simp only [Ne.symm h.1, if_false]
    rw [ih h.2]
    simp

theorem ofQuoted (a : WrittenAttribute) : Balanced a.quoted := by
  intro seen rest
  have hquoted : a.quoted ++ rest = a.mark.char :: (a.value ++ a.mark.char :: rest) := by
    simp [WrittenAttribute.quoted]
  rw [hquoted]
  have hopen : splitAtTagEnd seen none (a.mark.char :: (a.value ++ a.mark.char :: rest)) =
      splitAtTagEnd (a.mark.char :: seen) (some a.mark.char) (a.value ++ a.mark.char :: rest) := by
    cases a.mark <;> simp [splitAtTagEnd, QuotationMark.char]
  rw [hopen, quoted_from a.unquoted]
  simp [WrittenAttribute.quoted]

theorem ofKey (k : Key) : Balanced k.render := by
  cases k with
  | plain n hn => exact ofName n
  | defaultNamespace => exact plain (by decide)
  | namespaceOf q =>
    have hxmlns : Balanced (xmlnsName ++ [':']) := plain (by decide)
    have hrender : (Key.namespaceOf q).render = xmlnsName ++ [':'] ++ q.chars := by
      simp [Key.render]
    rw [hrender]
    exact hxmlns.append (ofName ⟨none, q⟩)

theorem ofAttribute (a : WrittenAttribute) : Balanced a.render := by
  have hsign : Balanced ['='] := plain (by decide)
  have hrender : a.render = a.before.chars ++
      (a.key.render ++ (a.beforeSign.chars ++ (['='] ++ (a.afterSign.chars ++ a.quoted)))) := rfl
  rw [hrender]
  exact (ofSpaces _).append ((ofKey _).append ((ofSpaces _).append (hsign.append
    ((ofSpaces _).append (ofQuoted a)))))

theorem ofAttributes (as : List WrittenAttribute) : Balanced (as.flatMap (·.render)) := by
  induction as with
  | nil => exact plain rfl
  | cons a as ih => exact (ofAttribute a).append ih

theorem ofTag (t : WrittenTag) : Balanced t.render :=
  (ofName t.name).append ((ofAttributes t.attributes).append (ofSpaces t.after))

end Balanced

def NoSlash (s : List Char) : Prop := s.getLast? ≠ some '/'

namespace NoSlash

theorem append {s s' : List Char} (h : NoSlash s) (h' : NoSlash s') : NoSlash (s ++ s') := by
  intro hlast
  rw [List.getLast?_append, Option.or_eq_some_iff] at hlast
  rcases hlast with hlast | ⟨-, hlast⟩
  · exact h' hlast
  · exact h hlast

theorem of_not_mem {s : List Char} (h : '/' ∉ s) : NoSlash s :=
  fun hlast => h (List.mem_of_getLast? hlast)

theorem ofSpaces (s : Spaces) : NoSlash s.chars :=
  of_not_mem fun hmem => isSpace_ne (s.spaces _ hmem) (by decide) rfl

theorem ofAttribute (a : WrittenAttribute) : NoSlash a.render := by
  have hrender : a.render = a.before.chars ++ (a.key.render ++ (a.beforeSign.chars ++
      '=' :: (a.afterSign.chars ++ a.mark.char :: a.value))) ++ [a.mark.char] := by
    simp [WrittenAttribute.render, WrittenAttribute.quoted]
  rw [NoSlash, hrender, List.getLast?_concat]
  cases a.mark <;> decide

theorem ofTag (t : WrittenTag) : NoSlash t.render := by
  have hname : NoSlash t.name.render :=
    of_not_mem fun hmem => t.name.ne_of_mem_render hmem (by simp) rfl
  have hattributes : NoSlash (t.attributes.flatMap (·.render)) := by
    generalize t.attributes = as
    induction as with
    | nil => exact of_not_mem (by simp)
    | cons a as ih => exact (ofAttribute a).append ih
  exact hname.append (hattributes.append (ofSpaces t.after))

end NoSlash

theorem takeWhile_renderRest (t : WrittenTag) : t.renderRest.takeWhile (!isSpace ·) = [] := by
  have hspaces : ∀ (s : Spaces) (rest : List Char), s.chars ≠ [] →
      (s.chars ++ rest).takeWhile (!isSpace ·) = [] := by
    intro s rest hs
    obtain ⟨c, chars, hc⟩ := List.exists_cons_of_ne_nil hs
    have hspace := s.spaces c (hc ▸ List.mem_cons_self)
    simp [hc, hspace]
  obtain ⟨name, as, after⟩ := t
  cases as with
  | nil =>
    by_cases hafter : after.chars = []
    · simp [WrittenTag.renderRest, hafter]
    · have htake := hspaces after [] hafter
      simpa [WrittenTag.renderRest] using htake
  | cons a as =>
    have hrest : WrittenTag.renderRest ⟨name, a :: as, after⟩ =
        a.before.chars ++ (a.key.render ++ (a.beforeSign.chars ++
          '=' :: (a.afterSign.chars ++ a.quoted)) ++ as.flatMap (·.render) ++ after.chars) := by
      simp [WrittenTag.renderRest, WrittenAttribute.render]
    rw [hrest]
    exact hspaces a.before _ a.separated

def WrittenTag.toTag (t : WrittenTag) : Tag where
  name := t.name.render
  attributes := t.renderRest

theorem cut_tag (t : WrittenTag) :
    t.render.takeWhile (!isSpace ·) = t.name.render ∧
      t.render.dropWhile (!isSpace ·) = t.renderRest := by
  have hname : ∀ c ∈ t.name.render, (!isSpace c) = true := by
    intro c hc
    simp [t.name.not_isSpace_of_mem_render hc]
  have htake := takeWhile_renderRest t
  rw [WrittenTag.render, List.takeWhile_append_of_pos hname, List.dropWhile_append_of_pos hname,
    htake, dropWhile_eq_self htake, List.append_nil]
  exact ⟨rfl, rfl⟩

theorem tagOfContent_render (t : WrittenTag) : tagOfContent t.render = .start t.toTag := by
  obtain ⟨hname, hrest⟩ := cut_tag t
  rw [tagOfContent, if_neg (NoSlash.ofTag t)]
  simp only [hname, hrest, WrittenTag.toTag]

theorem tagOfContent_render_slash (t : WrittenTag) :
    tagOfContent (t.render ++ ['/']) = .single t.toTag := by
  obtain ⟨hname, hrest⟩ := cut_tag t
  rw [tagOfContent, if_pos List.getLast?_concat, List.dropLast_concat]
  simp only [hname, hrest, WrittenTag.toTag]

theorem readMarkup_of_name {n : QualifiedName} (s : List Char) :
    readMarkup ('<' :: (n.render ++ s)) = (readStart (n.render ++ s)).map some := by
  obtain ⟨c, cs, hrender⟩ := List.exists_cons_of_ne_nil n.render_ne_nil
  have hc : c ∈ n.render := hrender ▸ List.mem_cons_self
  have hbang : c ≠ '!' := n.ne_of_mem_render hc (by simp)
  have hslash : c ≠ '/' := n.ne_of_mem_render hc (by simp)
  have hquestion : c ≠ '?' := n.ne_of_mem_render hc (by simp)
  rw [hrender]
  unfold readMarkup
  split <;> simp_all

theorem readStart_append {content : List Char} (h : Balanced content) (rest : List Char) :
    readStart (content ++ '>' :: rest) = .ok (tagOfContent content, rest) := by
  have hsplit : splitAtTagEnd [] none (content ++ '>' :: rest) = some (content, rest) := by
    rw [h]
    simp [splitAtTagEnd]
  rw [readStart, hsplit]

theorem readMarkup_start (t : WrittenTag) (rest : List Char) :
    readMarkup (t.renderStart ++ rest) = .ok (some (.start t.toTag, rest)) := by
  have hstart := readStart_append (Balanced.ofTag t) rest
  have hrender : t.renderStart ++ rest = '<' :: (t.name.render ++ (t.renderRest ++ '>' :: rest)) := by
    simp [WrittenTag.renderStart, WrittenTag.render]
  rw [tagOfContent_render, WrittenTag.render, List.append_assoc] at hstart
  rw [hrender, readMarkup_of_name, hstart]
  rfl

theorem readMarkup_single (t : WrittenTag) (rest : List Char) :
    readMarkup (t.renderSingle ++ rest) = .ok (some (.single t.toTag, rest)) := by
  have hslash : Balanced ['/'] := .plain (by decide)
  have hstart := readStart_append ((Balanced.ofTag t).append hslash) rest
  have hrender : t.renderSingle ++ rest =
      '<' :: (t.name.render ++ (t.renderRest ++ (['/'] ++ '>' :: rest))) := by
    simp [WrittenTag.renderSingle, WrittenTag.render]
  rw [tagOfContent_render_slash, WrittenTag.render, List.append_assoc, List.append_assoc] at hstart
  rw [hrender, readMarkup_of_name, hstart]
  rfl

end Tree
end ServiceMetadata.Xml
