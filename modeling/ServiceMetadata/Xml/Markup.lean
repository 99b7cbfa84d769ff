import ServiceMetadata.Xml.Error

/-! # The pieces of an XML text

A text is cut into runs of character data and tags. Only what is needed to find where a piece ends
is checked: names, attributes and comments may hold anything. -/
namespace ServiceMetadata.Xml
open ServiceMetadata.Text (leadByte)

def isSpace (c : Char) : Bool := c = ' ' || c = '\r' || c = '\n' || c = '\t'

structure Tag where
  name : List Char
  attributes : List Char
  deriving DecidableEq, Repr

inductive Markup where
  | text (run : List Char)
  | cdata (content : List Char)
  | start (tag : Tag)
  | single (tag : Tag)
  | stop (content : List Char)
  | aside
  deriving DecidableEq, Repr

/-- Splits before the first `>` at which `closes` holds of what stands before it, last character
first. The `>` is dropped. -/
def splitAtClose (closes : List Char → Bool) (seen : List Char) :
    List Char → Option (List Char × List Char)
  | [] => none
  | c :: rest =>
    if c = '>' && closes seen then some (seen.reverse, rest)
    else splitAtClose closes (c :: seen) rest

def splitAtAngle (s : List Char) : List Char × List Char :=
  (s.takeWhile (· ≠ '>'), (s.dropWhile (· ≠ '>')).drop 1)

def splitAtTagEnd (seen : List Char) (quote : Option Char) :
    List Char → Option (List Char × List Char)
  | [] => none
  | c :: rest =>
    match quote with
    | some q => splitAtTagEnd (c :: seen) (if c = q then none else some q) rest
    | none =>
      if c = '>' then some (seen.reverse, rest)
      else splitAtTagEnd (c :: seen) (if c = '\'' || c = '"' then some c else none) rest

def startsWithCommentEnd : List Char → Bool
  | '-' :: '-' :: _ => true
  | _ => false

/-- A comment is closed by `-->`, at the earliest right after `!--` and two dashes more. -/
def closesComment (seen : List Char) : Bool := 4 ≤ seen.length && startsWithCommentEnd seen

def closesCdata : List Char → Bool
  | ']' :: ']' :: _ => true
  | _ => false

def closesDoctype (seen : List Char) : Bool := seen.count '<' = seen.count '>'

/-- Whether a text starts with `word`, which is in capital letters, in letters of either case. -/
def startsWithWord : List Char → List Char → Bool
  | [], _ => true
  | _ :: _, [] => false
  | w :: word, c :: rest => c.toUpper = w && startsWithWord word rest

def cdataWord : List Char := ['[', 'C', 'D', 'A', 'T', 'A', '[']
def doctypeWord : List Char := ['D', 'O', 'C', 'T', 'Y', 'P', 'E']

def readComment (s : List Char) : Except Error (Markup × List Char) :=
  match splitAtClose closesComment [] s with
  | some ('-' :: '-' :: _, rest) => .ok (.aside, rest)
  | _ => .error (.broken .comment)

def readCdata (s : List Char) : Except Error (Markup × List Char) :=
  match splitAtClose closesCdata [] s with
  | some (body, rest) =>
    if startsWithWord cdataWord body.dropLast.dropLast then
      .ok (.cdata (body.dropLast.dropLast.drop cdataWord.length), rest)
    else .error (.broken .cdata)
  | none => .error (.broken .cdata)

def readDoctype (s : List Char) : Except Error (Markup × List Char) :=
  match splitAtClose closesDoctype [] s with
  | some (body, rest) =>
    if !startsWithWord doctypeWord body then .error (.broken .doctype)
    else if (body.drop doctypeWord.length).all isSpace then .error .emptyDoctype
    else .ok (.aside, rest)
  | none => .error (.broken .doctype)

def readBang (s : List Char) : Except Error (Markup × List Char) :=
  match s with
  | [] => .error (.broken .bang)
  | c :: _ =>
    if c = '-' then readComment s
    else if c = '[' then readCdata s
    else if c = 'D' || c = 'd' then readDoctype s
    else .error (.unknownBang (leadByte c))

def readInstruction (s : List Char) : Except Error (Markup × List Char) :=
  let (body, rest) := splitAtAngle s
  if 2 ≤ body.length && body.getLast? = some '?' then .ok (.aside, rest)
  else .error (.broken .declaration)

def tagOfContent (content : List Char) : Markup :=
  let named (content : List Char) : Tag :=
    { name := content.takeWhile (!isSpace ·), attributes := content.dropWhile (!isSpace ·) }
  if content.getLast? = some '/' then .single (named content.dropLast) else .start (named content)

def readStart (s : List Char) : Except Error (Markup × List Char) :=
  match splitAtTagEnd [] none s with
  | some (content, rest) => .ok (tagOfContent content, rest)
  | none => .error (.broken .element)

def readStop (s : List Char) : Markup × List Char :=
  let (content, rest) := splitAtAngle s
  (.stop content, rest)

/-- The first piece of a text and what follows it. There is none in the empty text, nor after a `<`
that is the last character. -/
def readMarkup (s : List Char) : Except Error (Option (Markup × List Char)) :=
  match s with
  | [] | ['<'] => .ok none
  | '<' :: '!' :: rest => (readBang rest).map some
  | '<' :: '/' :: rest => .ok (some (readStop rest))
  | '<' :: '?' :: rest => (readInstruction rest).map some
  | '<' :: rest => (readStart rest).map some
  | s => .ok (some (.text (s.takeWhile (· ≠ '<')), s.dropWhile (· ≠ '<')))

theorem splitAtClose_length {closes : List Char → Bool} {s body rest : List Char} :
    ∀ {seen : List Char},
      splitAtClose closes seen s = some (body, rest) → rest.length < s.length := by
  induction s with
  | nil => intro seen h; simp [splitAtClose] at h
  | cons c s ih =>
    intro seen h
    rw [splitAtClose] at h
    split at h
    · simp only [Option.some.injEq, Prod.mk.injEq] at h
      simp [← h.2]
    · have := ih h
      simp only [List.length_cons]
      omega

theorem splitAtTagEnd_length {s body rest : List Char} :
    ∀ {seen : List Char} {quote : Option Char},
      splitAtTagEnd seen quote s = some (body, rest) → rest.length < s.length := by
  induction s with
  | nil => intro seen quote h; simp [splitAtTagEnd] at h
  | cons c s ih =>
    intro seen quote h
    rw [splitAtTagEnd.eq_def] at h
    dsimp only at h
    split at h
    · have := ih h
      simp only [List.length_cons]
      omega
    · split at h
      · simp only [Option.some.injEq, Prod.mk.injEq] at h
        simp [← h.2]
      · have := ih h
        simp only [List.length_cons]
        omega

theorem splitAtAngle_length (s : List Char) : (splitAtAngle s).2.length ≤ s.length := by
  have h := (List.dropWhile_sublist (fun c : Char => decide (c ≠ '>')) (l := s)).length_le
  simp only [splitAtAngle, List.length_drop]
  omega

theorem readBang_length {s rest : List Char} {m : Markup} (h : readBang s = .ok (m, rest)) :
    rest.length < s.length := by
  unfold readBang at h
  split at h
  · simp at h
  split at h
  · unfold readComment at h
    split at h
    · rename_i hs
      have := splitAtClose_length hs
      simp_all
    · simp at h
  split at h
  · unfold readCdata at h
    split at h
    · rename_i hs
      have := splitAtClose_length hs
      split at h <;> simp_all
    · simp at h
  split at h
  · unfold readDoctype at h
    split at h
    · rename_i hs
      have := splitAtClose_length hs
      split at h
      · simp at h
      · split at h <;> simp_all
    · simp at h
  · simp at h

theorem readMarkup_length {s rest : List Char} {m : Markup}
    (h : readMarkup s = .ok (some (m, rest))) : rest.length < s.length := by
  unfold readMarkup at h
  split at h
  · simp at h
  · simp at h
  · rename_i r
    cases hb : readBang r with
    | error e => simp [hb, Except.map] at h
    | ok p =>
      obtain ⟨m', r'⟩ := p
      have := readBang_length hb
      simp [hb, Except.map] at h
      simp only [List.length_cons, ← h.2]
      omega
  · rename_i r
    have := splitAtAngle_length r
    simp [readStop] at h
    simp only [List.length_cons, ← h.2]
    omega
  · rename_i r
    have := splitAtAngle_length r
    simp only [readInstruction] at h
    split at h
    · simp [Except.map] at h
      simp only [List.length_cons, ← h.2]
      omega
    · simp [Except.map] at h
  · rename_i r _ _ _ _
    simp only [readStart] at h
    split at h
    · rename_i hs
      have := splitAtTagEnd_length hs
      simp [Except.map] at h
      simp only [List.length_cons, ← h.2]
      omega
    · simp [Except.map] at h
  · rename_i hnil _ _ _ _ hlt
    rw [Except.ok.injEq, Option.some.injEq, Prod.mk.injEq] at h
    cases s with
    | nil => exact absurd rfl hnil
    | cons c r =>
      have hc : decide (c ≠ '<') = true := decide_eq_true fun hc => hlt r (by rw [hc])
      have hdrop : (c :: r).dropWhile (· ≠ '<') = r.dropWhile (· ≠ '<') :=
        List.dropWhile_cons_of_pos hc
      have := (List.dropWhile_sublist (fun c : Char => decide (c ≠ '<')) (l := r)).length_le
      obtain ⟨-, rfl⟩ := h
      rw [hdrop, List.length_cons]
      omega

end ServiceMetadata.Xml
