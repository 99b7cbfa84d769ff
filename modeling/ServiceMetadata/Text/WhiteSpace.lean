/-! # White space

The characters with the Unicode property `White_Space`, and the two things done with them: cutting
them off both ends of a text, and splitting a text at them into words. -/
namespace ServiceMetadata.Text

/-- The first and last code point of each run of `White_Space` characters. -/
def whiteSpaceRanges : List (Nat × Nat) :=
  [(0x9, 0xD), (0x20, 0x20), (0x85, 0x85), (0xA0, 0xA0), (0x1680, 0x1680), (0x2000, 0x200A),
    (0x2028, 0x2029), (0x202F, 0x202F), (0x205F, 0x205F), (0x3000, 0x3000)]

def isWhiteSpace (c : Char) : Bool :=
  whiteSpaceRanges.any fun range => range.1 ≤ c.toNat && c.toNat ≤ range.2

def trimLeft (s : List Char) : List Char := s.dropWhile isWhiteSpace

def trim (s : List Char) : List Char := (trimLeft (trimLeft s).reverse).reverse

def isBlank (s : List Char) : Bool := s.all isWhiteSpace

theorem trimLeft_eq_nil_iff (s : List Char) : trimLeft s = [] ↔ isBlank s = true := by
  induction s with
  | nil => simp [trimLeft, isBlank]
  | cons c r ih =>
    unfold trimLeft isBlank at ih ⊢
    by_cases h : isWhiteSpace c = true
    · rw [List.dropWhile_cons_of_pos h, ih, List.all_cons, h, Bool.true_and]
    · simp [h]

theorem trim_eq_nil_iff (s : List Char) : trim s = [] ↔ isBlank s = true := by
  have hall : isBlank (trimLeft s).reverse = true ↔ isBlank s = true := by
    induction s with
    | nil => simp [trimLeft, isBlank]
    | cons c r ih =>
      by_cases h : isWhiteSpace c = true
      · simpa [trimLeft, isBlank, h] using ih
      · simp [trimLeft, isBlank, h]
  rw [trim, List.reverse_eq_nil_iff, trimLeft_eq_nil_iff, hall]

/-- The words of a text, where `current` holds the letters of the word being read, last first. -/
def wordsFrom (current : List Char) : List Char → List (List Char)
  | [] => if current = [] then [] else [current.reverse]
  | c :: rest =>
    if isWhiteSpace c then
      if current = [] then wordsFrom [] rest else current.reverse :: wordsFrom [] rest
    else wordsFrom (c :: current) rest

def words (s : List Char) : List (List Char) := wordsFrom [] s

end ServiceMetadata.Text
