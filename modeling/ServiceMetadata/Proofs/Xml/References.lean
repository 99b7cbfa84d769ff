import ServiceMetadata.Xml.Reference
import ServiceMetadata.Proofs.Except
import ServiceMetadata.Proofs.Xml.Tree

/-!
# Reading references back

Where a reference stands matters for faults only. Every character of a tree's text spells itself,
whether it is written plainly, by name or by number, and whatever stands after it.
-/
namespace ServiceMetadata.Xml

def characterNamed (name : List Char) : Option Char := (referenceCharacter 0 0 name).toOption

/-- What a run of character data spells, if anything; `inside` has what has been read of the name of
a reference, last first. -/
def spelled (inside : Option (List Char)) : List Char → Option (List Char)
  | [] =>
    match inside with
    | none => some []
    | some _ => none
  | c :: rest =>
    match inside with
    | none =>
      if c = '&' then spelled (some []) rest else (spelled none rest).map (c :: ·)
    | some name =>
      if c = ';' then
        (characterNamed name.reverse).bind fun character =>
          (spelled none rest).map (character :: ·)
      else if c = '&' then none
      else spelled (some (c :: name)) rest

theorem toOption_characterOfCode (start stop code : Nat) :
    (characterOfCode start stop code).toOption = (characterOfCode 0 0 code).toOption := by
  unfold characterOfCode
  split
  · rfl
  · rfl

theorem toOption_referenceCharacter (start stop : Nat) (name : List Char) :
    (referenceCharacter start stop name).toOption = characterNamed name := by
  unfold characterNamed referenceCharacter
  split
  · rename_i number
    cases referenceCode number with
    | error e => rfl
    | ok code => exact toOption_characterOfCode start stop code
  all_goals rfl

theorem toOption_replaceFrom (size place : Nat) (inside : Option (Nat × List Char))
    (s : List Char) :
    (replaceFrom size place inside s).toOption = spelled (inside.map (·.2)) s := by
  induction s generalizing place inside with
  | nil => cases inside <;> rfl
  | cons c s ih =>
    cases inside with
    | none =>
      simp only [replaceFrom, spelled, Option.map_none]
      split
      · exact ih _ _
      · rw [toOption_map, ih]
        rfl
    | some p =>
      obtain ⟨start, name⟩ := p
      simp only [replaceFrom, spelled, Option.map_some]
      split
      · have hrest : (replaceFrom size (place + 1) none s).toOption = spelled none s := ih _ none
        rw [← toOption_referenceCharacter start place, ← hrest]
        cases referenceCharacter start place name.reverse with
        | error e => rfl
        | ok character => cases replaceFrom size (place + 1) none s <;> rfl
      split
      · rfl
      · exact ih _ _

theorem unescape_eq_ok {run content : List Char} :
    unescape run = .ok content ↔ spelled none run = some content := by
  rw [← toOption_eq_some_iff, unescape, toOption_replaceFrom]
  rfl

theorem spelled_append {inside : Option (List Char)} {run content : List Char}
    (h : spelled inside run = some content) (rest : List Char) :
    spelled inside (run ++ rest) = (spelled none rest).map (content ++ ·) := by
  induction run generalizing inside content with
  | nil =>
    cases inside with
    | none =>
      obtain rfl := Option.some.inj h
      simp
    | some name => simp [spelled] at h
  | cons c run ih =>
    cases inside with
    | none =>
      rw [spelled] at h
      rw [List.cons_append, spelled]
      split at h
      · rename_i hamp
        rw [if_pos hamp]
        exact ih h
      · rename_i hamp
        obtain ⟨content', hrun, rfl⟩ := Option.map_eq_some_iff.1 h
        rw [if_neg hamp, ih hrun, Option.map_map]
        rfl
    | some name =>
      rw [spelled] at h
      rw [List.cons_append, spelled]
      split at h
      · rename_i hsemi
        obtain ⟨character, hname, hrest⟩ := Option.bind_eq_some_iff.1 h
        obtain ⟨content', hrun, rfl⟩ := Option.map_eq_some_iff.1 hrest
        rw [if_pos hsemi, hname, Option.bind_some, ih hrun, Option.map_map]
        rfl
      · rename_i hsemi
        rw [if_neg hsemi]
        split at h
        · simp at h
        · rename_i hamp
          rw [if_neg hamp]
          exact ih h

/-- A run that ends before the next tag, and spells a content if `p` holds, whatever follows it; if
`p` does not hold it spells nothing. -/
structure Spells (p : Prop) (run content : List Char) : Prop where
  tagless : '<' ∉ run
  spelled_append : ∀ rest s, spelled none (run ++ rest) = some s ↔
    p ∧ ∃ s', spelled none rest = some s' ∧ content ++ s' = s

namespace Spells

variable {p q : Prop} {run run' content content' : List Char}

theorem congr (h : Spells p run content) (hpq : p ↔ q) : Spells q run content := propext hpq ▸ h

theorem nil : Spells True [] [] where
  tagless := by simp
  spelled_append := by simp

theorem append (h : Spells p run content) (h' : Spells q run' content') :
    Spells (p ∧ q) (run ++ run') (content ++ content') where
  tagless := by
    intro hmem
    rcases List.mem_append.1 hmem with hmem | hmem
    · exact h.tagless hmem
    · exact h'.tagless hmem
  spelled_append := by
    intro rest s
    rw [List.append_assoc, h.spelled_append]
    constructor
    · rintro ⟨hp, s', hs', rfl⟩
      obtain ⟨hq, s'', hs'', rfl⟩ := (h'.spelled_append rest s').1 hs'
      exact ⟨⟨hp, hq⟩, s'', hs'', List.append_assoc content content' s''⟩
    · rintro ⟨⟨hp, hq⟩, s', hs', rfl⟩
      have hrest := (h'.spelled_append rest (content' ++ s')).2 ⟨hq, s', hs', rfl⟩
      exact ⟨hp, content' ++ s', hrest, (List.append_assoc content content' s').symm⟩

theorem plain {c : Char} (hlt : c ≠ '<') (hamp : c ≠ '&') : Spells True [c] [c] where
  tagless := by simpa using Ne.symm hlt
  spelled_append := by
    intro rest s
    rw [List.singleton_append, spelled, if_neg hamp, true_and, Option.map_eq_some_iff]
    rfl

end Spells

theorem spelled_reference {before name : List Char} (rest : List Char) (hsemi : ';' ∉ name)
    (hamp : '&' ∉ name) :
    spelled (some before) (name ++ ';' :: rest) =
      (characterNamed (before.reverse ++ name)).bind fun c => (spelled none rest).map (c :: ·) := by
  induction name generalizing before with
  | nil => simp [spelled]
  | cons c name ih =>
    rw [List.mem_cons, not_or] at hsemi hamp
    rw [List.cons_append, spelled, if_neg (Ne.symm hsemi.1), if_neg (Ne.symm hamp.1),
      ih hsemi.2 hamp.2]
    simp

theorem Spells.reference {p : Prop} {name : List Char} {c : Char} (hlt : '<' ∉ name)
    (hsemi : ';' ∉ name) (hamp : '&' ∉ name)
    (hname : ∀ character, characterNamed name = some character ↔ p ∧ c = character) :
    Spells p ('&' :: (name ++ [';'])) [c] where
  tagless := by simpa using hlt
  spelled_append := by
    intro rest s
    have happend : '&' :: (name ++ [';']) ++ rest = '&' :: (name ++ ';' :: rest) := by simp
    rw [happend, spelled, if_pos rfl, spelled_reference rest hsemi hamp, List.reverse_nil,
      List.nil_append, Option.bind_eq_some_iff]
    constructor
    · rintro ⟨character, hcharacter, hrest⟩
      obtain ⟨hp, rfl⟩ := (hname character).1 hcharacter
      exact ⟨hp, Option.map_eq_some_iff.1 hrest⟩
    · rintro ⟨hp, hrest⟩
      exact ⟨c, (hname c).2 ⟨hp, rfl⟩, Option.map_eq_some_iff.2 hrest⟩

namespace Tree

theorem Digit.hexadecimalDigit_char (d : Digit) :
    hexadecimalDigit d.char = some d.value.val := by
  obtain ⟨value, capital⟩ := d
  revert value capital
  decide

theorem Digit.decimalDigit_char (d : Digit) (h : d.value.val < 10) :
    decimalDigit d.char = some d.value.val := by
  obtain ⟨value, capital⟩ := d
  revert value capital
  decide

theorem Digit.utf8Size_char (d : Digit) : d.char.utf8Size = 1 := by
  obtain ⟨value, capital⟩ := d
  revert value capital
  decide

theorem Digit.char_not_mem (d : Digit) : d.char ∉ ['<', ';', '&', 'x'] := by
  obtain ⟨value, capital⟩ := d
  revert value capital
  decide

theorem sizeOfText_digits (digits : List Digit) :
    Text.sizeOfText (digits.map (·.char)) = digits.length := by
  have hfrom : ∀ n, (digits.map (·.char)).foldl (fun size c => size + c.utf8Size) n =
      n + digits.length := by
    induction digits with
    | nil => simp
    | cons d digits ih =>
      intro n
      rw [List.map_cons, List.foldl_cons, ih, d.utf8Size_char, List.length_cons]
      omega
  rw [Text.sizeOfText, hfrom, Nat.zero_add]

theorem readCode_digits {base : Nat} {digit : Char → Option Nat} {bad : Char → ReferenceError}
    {digits : List Digit} (hdigit : ∀ d ∈ digits, digit d.char = some d.value.val) (code : Nat) :
    readCode base digit bad code (digits.map (·.char)) = .ok (codeOfDigits base code digits) := by
  induction digits generalizing code with
  | nil => rfl
  | cons d digits ih =>
    rw [List.map_cons, readCode, hdigit d List.mem_cons_self]
    exact ih (fun d' hd' => hdigit d' (List.mem_cons_of_mem _ hd')) _

theorem readCode_if_short {base most : Nat} {digit : Char → Option Nat}
    {bad : Char → ReferenceError} {long : ReferenceError} {digits : List Digit}
    (hdigit : ∀ d ∈ digits, digit d.char = some d.value.val) (code : Nat) :
    (if most < Text.sizeOfText (digits.map (·.char)) then .error long
      else readCode base digit bad 0 (digits.map (·.char))) = .ok code ↔
      digits.length ≤ most ∧ codeOfDigits base 0 digits = code := by
  rw [sizeOfText_digits, readCode_digits hdigit]
  by_cases hlong : most < digits.length
  · simp [hlong, Nat.not_le.2 hlong]
  · simp [hlong, Nat.not_lt.1 hlong]

theorem referenceCode_number (n : NumericReference) (code : Nat) :
    referenceCode (n.radix.mark ++ n.digits.map (·.char)) = .ok code ↔
      n.IsShort ∧ codeOfDigits n.radix.base 0 n.digits = code := by
  obtain ⟨radix, digits, hradix, hvalid, hpositive⟩ := n
  cases radix with
  | hexadecimal =>
    rw [Radix.mark, List.singleton_append, referenceCode]
    exact readCode_if_short (fun d _ => d.hexadecimalDigit_char) code
  | decimal =>
    -- Digits that began with an `x` would be read as those of a hexadecimal number.
    have hmark : ∀ rest, digits.map (·.char) ≠ 'x' :: rest := by
      intro rest heq
      cases digits with
      | nil => simp at heq
      | cons d digits =>
        have hx : d.char = 'x' := (List.cons.inj heq).1
        exact d.char_not_mem (by simp [hx])
    rw [Radix.mark, List.nil_append, referenceCode]
    · exact readCode_if_short (fun d hd => d.decimalDigit_char (hradix d hd)) code
    · exact hmark

theorem characterNamed_number (n : NumericReference) (c : Char) :
    characterNamed ('#' :: (n.radix.mark ++ n.digits.map (·.char))) = some c ↔
      n.IsShort ∧ Char.ofNat (codeOfDigits n.radix.base 0 n.digits) = c := by
  have hcode : characterOfCode 0 0 (codeOfDigits n.radix.base 0 n.digits) =
      .ok (Char.ofNat (codeOfDigits n.radix.base 0 n.digits)) := by
    rw [characterOfCode, if_neg n.positive, if_pos n.valid]
  rw [characterNamed, toOption_eq_some_iff, referenceCharacter, bind_eq_ok_iff]
  constructor
  · rintro ⟨code, hread, hcharacter⟩
    obtain ⟨hshort, rfl⟩ := (referenceCode_number n code).1 hread
    exact ⟨hshort, Except.ok.inj (hcode.symm.trans hcharacter)⟩
  · rintro ⟨hshort, rfl⟩
    exact ⟨_, (referenceCode_number n _).2 ⟨hshort, rfl⟩, hcode⟩

theorem number_plain (n : NumericReference) {c : Char} (h : c ∈ ['<', ';', '&']) :
    c ∉ '#' :: (n.radix.mark ++ n.digits.map (·.char)) := by
  have hc : c ∈ ['<', ';', '&', 'x'] := List.mem_append_left ['x'] h
  intro hmem
  rw [← List.cons_append, List.mem_append] at hmem
  rcases hmem with hmem | hmem
  · cases hradix : n.radix with
    | decimal =>
      obtain rfl : c = '#' := by simpa [hradix, Radix.mark] using hmem
      simp at h
    | hexadecimal =>
      rcases (by simpa [hradix, Radix.mark] using hmem : c = '#' ∨ c = 'x') with rfl | rfl <;>
        simp at h
  · obtain ⟨d, -, rfl⟩ := List.mem_map.1 hmem
    exact d.char_not_mem hc

theorem Entity.characterNamed_name (e : Entity) : characterNamed e.name = some e.char := by
  cases e <;> rfl

theorem Piece.spells (p : Piece) : Spells (AllShort p.number?.toList) p.render [p.char] := by
  cases p with
  | plain c hplain => exact (Spells.plain hplain.1 hplain.2).congr (by simp [number?])
  | entity e =>
    have hname : ∀ c, characterNamed e.name = some c ↔ True ∧ e.char = c := by
      intro c
      rw [e.characterNamed_name, Option.some_inj, true_and]
    have hplain : '<' ∉ e.name ∧ ';' ∉ e.name ∧ '&' ∉ e.name := by cases e <;> decide
    exact (Spells.reference hplain.1 hplain.2.1 hplain.2.2 hname).congr (by simp [number?])
  | number n =>
    have hrender : (Piece.number n).render =
        '&' :: ('#' :: (n.radix.mark ++ n.digits.map (·.char)) ++ [';']) := by
      simp [Piece.render]
    rw [hrender]
    exact (Spells.reference (number_plain n (by simp)) (number_plain n (by simp))
      (number_plain n (by simp)) (characterNamed_number n)).congr (by simp [number?, AllShort])

theorem pieces_spell (pieces : List Piece) :
    Spells (AllShort (pieces.filterMap (·.number?))) (pieces.flatMap (·.render))
      (pieces.map (·.char)) := by
  induction pieces with
  | nil => exact Spells.nil.congr (by simp)
  | cons p pieces ih =>
    refine (p.spells.append ih).congr ?_
    rw [← allShort_append, List.filterMap_cons]
    cases p.number? <;> rfl

theorem Spaces.spells (s : Spaces) : Spells True s.chars s.chars := by
  obtain ⟨chars, hall⟩ := s
  induction chars with
  | nil => exact .nil
  | cons c chars ih =>
    rw [List.all_cons, Bool.and_eq_true] at hall
    obtain ⟨hc, hall⟩ := hall
    have hlt : c ≠ '<' := isSpace_ne hc (by decide)
    have hamp : c ≠ '&' := isSpace_ne hc (by decide)
    exact ((Spells.plain hlt hamp).append (ih hall)).congr (and_self_iff)

end Tree
end ServiceMetadata.Xml
