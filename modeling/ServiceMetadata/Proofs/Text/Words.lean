import ServiceMetadata.Text.WhiteSpace

/-!
# The words of a text

A word has letters and no white space. A text is read as these words just if it is made up of them,
with white space between them and perhaps around them.
-/
namespace ServiceMetadata.Text

variable {s k w current : List Char}

def IsWord (w : List Char) : Prop := w ≠ [] ∧ ∀ c ∈ w, isWhiteSpace c = false

theorem isWord_reverse (hcurrent : ∀ c ∈ current, isWhiteSpace c = false) (hne : current ≠ []) :
    IsWord current.reverse :=
  ⟨by simpa using hne, by simpa using hcurrent⟩

theorem isWord_of_mem_wordsFrom (hcurrent : ∀ c ∈ current, isWhiteSpace c = false)
    (h : w ∈ wordsFrom current s) : IsWord w := by
  induction s generalizing current with
  | nil =>
    rw [wordsFrom] at h
    split at h
    · simp at h
    · rename_i hne
      rw [List.mem_singleton.1 h]
      exact isWord_reverse hcurrent hne
  | cons c s ih =>
    rw [wordsFrom] at h
    split at h
    · split at h
      · exact ih (by simp) h
      · rename_i hne
        rcases List.mem_cons.1 h with rfl | h
        · exact isWord_reverse hcurrent hne
        · exact ih (by simp) h
    · rename_i hc
      refine ih (fun d hd => ?_) h
      rcases List.mem_cons.1 hd with rfl | hd
      · simpa using hc
      · exact hcurrent d hd

theorem isWord_of_mem_words (h : w ∈ words s) : IsWord w :=
  isWord_of_mem_wordsFrom (by simp) h

theorem wordsFrom_append (hk : ∀ c ∈ k, isWhiteSpace c = false) (current s : List Char) :
    wordsFrom current (k ++ s) = wordsFrom (k.reverse ++ current) s := by
  induction k generalizing current with
  | nil => rfl
  | cons c k ih =>
    have hc : isWhiteSpace c = false := hk c List.mem_cons_self
    have hrest := ih (fun d hd => hk d (List.mem_cons_of_mem c hd)) (c :: current)
    rw [List.cons_append, wordsFrom, hc, if_neg (by simp), hrest]
    simp

theorem words_gap {gap : List Char} (hgap : isBlank gap = true) (s : List Char) :
    words (gap ++ s) = words s := by
  induction gap with
  | nil => rfl
  | cons c gap ih =>
    obtain ⟨hc, hrest⟩ := Bool.and_eq_true_iff.1 hgap
    rw [List.cons_append, words, wordsFrom, if_pos hc, if_pos rfl]
    exact ih hrest

theorem words_word_append (hw : IsWord w) (hs : ∀ c ∈ s.head?, isWhiteSpace c = true) :
    words (w ++ s) = w :: words s := by
  rw [words, wordsFrom_append hw.2, List.append_nil]
  cases s with
  | nil => simp [wordsFrom, words, hw.1]
  | cons c s =>
    have hc : isWhiteSpace c = true := hs c rfl
    simp [wordsFrom, words, hc, hw.1]

theorem words_word (hw : IsWord w) : words w = [w] := by
  have hwords := words_word_append hw (s := []) (by simp)
  rwa [List.append_nil] at hwords

theorem words_space_word (hk : IsWord k) (s : List Char) : words (k ++ ' ' :: s) = k :: words s := by
  have hgap : isBlank [' '] = true := by decide
  rw [words_word_append hk (by simp [isWhiteSpace, whiteSpaceRanges])]
  exact congrArg (k :: ·) (words_gap hgap s)

/-- The text is made up of these words and of white space, some of it between any two of them. -/
def SpacedOut : List (List Char) → List Char → Prop
  | [], s => isBlank s = true
  | w :: ws, s => ∃ gap rest, s = gap ++ w ++ rest ∧ isBlank gap = true ∧ IsWord w ∧
      (∀ c ∈ rest.head?, isWhiteSpace c = true) ∧ SpacedOut ws rest

theorem spacedOut_space {ws : List (List Char)} {c : Char} (hc : isWhiteSpace c = true)
    (h : SpacedOut ws s) : SpacedOut ws (c :: s) := by
  cases ws with
  | nil =>
    rw [SpacedOut, isBlank, List.all_cons, hc, Bool.true_and]
    exact h
  | cons w ws =>
    obtain ⟨gap, rest, rfl, hgap, hw, hrest⟩ := h
    refine ⟨c :: gap, rest, by simp, ?_, hw, hrest⟩
    rw [isBlank, List.all_cons, hc, Bool.true_and]
    exact hgap

theorem spacedOut_wordsFrom (hcurrent : ∀ c ∈ current, isWhiteSpace c = false) :
    SpacedOut (wordsFrom current s) (current.reverse ++ s) := by
  induction s generalizing current with
  | nil =>
    rw [wordsFrom]
    split
    · rename_i hnil
      rw [hnil]
      rfl
    · rename_i hne
      exact ⟨[], [], rfl, rfl, isWord_reverse hcurrent hne, by simp, rfl⟩
  | cons c s ih =>
    rw [wordsFrom]
    split
    · rename_i hc
      have hrest : SpacedOut (wordsFrom [] s) (c :: s) := spacedOut_space hc (ih (by simp))
      split
      · rename_i hnil
        rwa [hnil]
      · rename_i hne
        exact ⟨[], c :: s, rfl, rfl, isWord_reverse hcurrent hne, by simpa using hc, hrest⟩
    · rename_i hc
      have hletters : ∀ d ∈ c :: current, isWhiteSpace d = false := by
        rw [List.forall_mem_cons]
        exact ⟨by simpa using hc, hcurrent⟩
      simpa using ih hletters

theorem words_eq_iff (s : List Char) (ws : List (List Char)) : words s = ws ↔ SpacedOut ws s := by
  constructor
  · rintro rfl
    exact spacedOut_wordsFrom (by simp)
  · intro h
    induction ws generalizing s with
    | nil =>
      have hblank := words_gap h []
      rwa [List.append_nil] at hblank
    | cons w ws ih =>
      obtain ⟨gap, rest, rfl, hgap, hw, hspace, hrest⟩ := h
      rw [List.append_assoc, words_gap hgap, words_word_append hw hspace, ih rest hrest]

end ServiceMetadata.Text
