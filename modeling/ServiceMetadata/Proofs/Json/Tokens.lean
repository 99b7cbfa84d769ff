import ServiceMetadata.Proofs.Json.Strings

/-!
# The tokens of a written value

A written value is cut into its tokens: the marks and literals as they stand, each string and number
as a whole, and nothing for the white space between them. Only a number depends on what follows it,
since more digits, a point or an exponent would make it a longer one.
-/
namespace ServiceMetadata.Json
open ServiceMetadata.Text (Symbol)

def IsDigits (ds : List Char) : Prop := ds ≠ [] ∧ ∀ d ∈ ds, d.isDigit = true

structure Exponent.WellSpelled (e : Exponent) : Prop where
  digits : IsDigits e.digits

structure Number.WellSpelled (n : Number) : Prop where
  whole : IsDigits n.whole
  leading : ∀ d ds, n.whole = '0' :: d :: ds → False
  fraction : ∀ d ∈ n.fraction, d.isDigit = true
  exponent : ∀ e, n.exponent = some e → e.WellSpelled

mutual

def Value.WellSpelled : Value → Prop
  | .number n => n.WellSpelled
  | .array items => WellSpelledItems items
  | .object members => WellSpelledMembers members
  | _ => True

def WellSpelledItems : List Value → Prop
  | [] => True
  | v :: items => v.WellSpelled ∧ WellSpelledItems items

def WellSpelledMembers : List (String × Value) → Prop
  | [] => True
  | (_, v) :: members => v.WellSpelled ∧ WellSpelledMembers members

end

mutual

def Value.tokens : Value → List Token
  | .null => [.literal .null]
  | .bool b => [.literal (if b then .true else .false)]
  | .number n => [.number n]
  | .string s => [.string (.ok s)]
  | .array [] => [.openList, .closeList]
  | .array (v :: items) => .openList :: v.tokens ++ tokensOfItems items ++ [.closeList]
  | .object [] => [.openObject, .closeObject]
  | .object ((k, v) :: members) =>
    .openObject :: .string (.ok k) :: .colon :: v.tokens ++ tokensOfMembers members ++
      [.closeObject]

def tokensOfItems : List Value → List Token
  | [] => []
  | v :: items => .comma :: v.tokens ++ tokensOfItems items

def tokensOfMembers : List (String × Value) → List Token
  | [] => []
  | (k, v) :: members =>
    .comma :: .string (.ok k) :: .colon :: v.tokens ++ tokensOfMembers members

end

/-- Characters that are cut into tokens if what follows them is such that `p` holds. -/
structure Lexes (p : List Symbol → Prop) (s : List Char) (ts : List Token) : Prop where
  length_le : ts.length ≤ s.length
  cut : ∀ fuel rest, p rest →
    tokensFrom (ts.length + fuel) (s.map some ++ rest) = ts ++ tokensFrom fuel rest

def Anything (_ : List Symbol) : Prop := True

def EndsNumber (rest : List Symbol) : Prop :=
  ∀ c, rest.head? = some (some c) → c.isDigit = false ∧ c ≠ '.' ∧ c ≠ 'e' ∧ c ≠ 'E'

variable {p q : List Symbol → Prop} {s s' : List Char} {ts ts' : List Token}

theorem Lexes.append (h : Lexes p s ts) (h' : Lexes q s' ts')
    (hp : ∀ rest, q rest → p (s'.map some ++ rest)) : Lexes q (s ++ s') (ts ++ ts') := by
  refine ⟨?_, fun fuel rest hrest => ?_⟩
  · have hle := h.length_le
    have hle' := h'.length_le
    simp only [List.length_append]
    omega
  · rw [List.length_append, Nat.add_assoc, List.map_append, List.append_assoc,
      h.cut _ _ (hp rest hrest), h'.cut _ _ hrest, List.append_assoc]

theorem Lexes.then (h : Lexes Anything s ts) (h' : Lexes q s' ts') :
    Lexes q (s ++ s') (ts ++ ts') :=
  h.append h' fun _ _ => trivial

theorem Lexes.weaken (h : Lexes Anything s ts) : Lexes p s ts :=
  ⟨h.length_le, fun fuel rest _ => h.cut fuel rest trivial⟩

theorem tokensFrom_first {fuel : Nat} {c : Char} {rest rest' : List Symbol} {t : Token}
    (hspace : isJsonSpace (some c) = false) (h : readToken (some c) rest = (t, rest')) :
    tokensFrom (1 + fuel) (some c :: rest) = t :: tokensFrom fuel rest' := by
  rw [Nat.add_comm, tokensFrom, List.dropWhile_cons_of_neg (by simp [hspace])]
  simp only [h]

theorem lexes_mark {c : Char} {t : Token} (hspace : isJsonSpace (some c) = false)
    (h : ∀ rest, readToken (some c) rest = (t, rest)) : Lexes Anything [c] [t] :=
  ⟨Nat.le_refl 1, fun _ rest _ => tokensFrom_first hspace (h rest)⟩

theorem lexes_nil : Lexes p [] [] := ⟨Nat.le_refl 0, fun fuel rest _ => by simp⟩

theorem lexes_spaces (h : ∀ c ∈ s, isJsonSpace (some c) = true) : Lexes Anything s [] := by
  refine ⟨Nat.zero_le _, fun fuel rest _ => ?_⟩
  rw [List.length_nil, Nat.zero_add, List.nil_append]
  cases fuel with
  | zero => rfl
  | succ fuel =>
    have hdrop : (s.map some ++ rest).dropWhile isJsonSpace = rest.dropWhile isJsonSpace :=
      List.dropWhile_append_of_pos (by simpa using h)
    rw [tokensFrom, hdrop, tokensFrom]

theorem lexes_newLine (depth : Nat) : Lexes Anything (newLine depth) [] := by
  apply lexes_spaces
  intro c hc
  rcases List.mem_cons.1 hc with rfl | hc
  · decide
  · rw [List.eq_of_mem_replicate hc]
    decide

theorem lexes_string (s : String) : Lexes Anything (writeString s) [.string (.ok s)] := by
  refine ⟨by simp [writeString], fun fuel rest _ => ?_⟩
  have hwritten : (writeString s).map some ++ rest =
      some '"' :: ((s.toList.flatMap escapeChar).map some ++ some '"' :: rest) := by
    simp [writeString]
  rw [hwritten]
  exact tokensFrom_first rfl (stringToken_escaped s rest)

theorem lexes_literal {c : Char} {cs : List Char} {l : Literal}
    (hspace : isJsonSpace (some c) = false)
    (h : ∀ rest, readToken (some c) rest = readLiteral l cs rest) :
    Lexes Anything (c :: cs) [.literal l] := by
  have hread : ∀ (cs : List Char) (rest : List Symbol),
      readLiteral l cs (cs.map some ++ rest) = (.literal l, rest) := by
    intro cs rest
    induction cs with
    | nil => rfl
    | cons d cs ih => simpa [readLiteral] using ih
  refine ⟨by simp, fun fuel rest _ => ?_⟩
  exact tokensFrom_first hspace ((h _).trans (hread cs rest))

section Numbers
variable {ds : List Char} {rest : List Symbol}

def EndsDigits (rest : List Symbol) : Prop := ∀ c, rest.head? = some (some c) → c.isDigit = false

theorem EndsNumber.endsDigits (h : EndsNumber rest) : EndsDigits rest := fun c hc => (h c hc).1

theorem endsDigits_cons {c : Char} (h : c.isDigit = false) : EndsDigits (some c :: rest) := by
  intro d hd
  rw [List.head?_cons, Option.some.injEq, Option.some.injEq] at hd
  rwa [← hd]

theorem takeDigits_digits (hds : ∀ d ∈ ds, d.isDigit = true) (hrest : EndsDigits rest) :
    takeDigits (ds.map some ++ rest) = (ds, rest) := by
  have hdigits : ∀ a ∈ ds.map some, isDigit a = true := by simpa [isDigit] using hds
  have hstop : rest.takeWhile isDigit = [] ∧ rest.dropWhile isDigit = rest := by
    cases rest with
    | nil => exact ⟨rfl, rfl⟩
    | cons a rest =>
      have ha : isDigit a = false := by
        cases a with
        | none => rfl
        | some c => exact hrest c rfl
      simp [ha]
  simp [takeDigits, List.takeWhile_append_of_pos hdigits, List.dropWhile_append_of_pos hdigits,
    hstop.1, hstop.2, List.filterMap_map]

theorem readExponent_digits (negative : Bool) (hds : IsDigits ds) (hrest : EndsDigits rest) :
    readExponent negative (ds.map some ++ rest) = .ok ({ negative, digits := ds }, rest) := by
  obtain ⟨hne, hds⟩ := hds
  cases ds with
  | nil => exact absurd rfl hne
  | cons d ds => rw [readExponent, takeDigits_digits hds hrest]

def spellExponent : Option Exponent → List Char
  | some e => e.spelling
  | none => []

def spellFraction (ds : List Char) : List Char := if ds.isEmpty then [] else '.' :: ds

theorem readExponent?_spelled (e : Exponent) (h : e.WellSpelled) (hrest : EndsDigits rest) :
    readExponent? (e.spelling.map some ++ rest) = .ok (some e, rest) := by
  obtain ⟨negative, digits⟩ := e
  have hdigits := readExponent_digits negative h.digits hrest
  cases negative with
  | true => simp [Exponent.spelling, readExponent?, hdigits, Except.map]
  | false =>
    -- the first digit is no sign, so the digits are read where they stand
    obtain ⟨hne, hds⟩ := h.digits
    cases digits with
    | nil => exact absurd rfl hne
    | cons d digits =>
      have hd : d.isDigit = true := hds d List.mem_cons_self
      have hplus : d ≠ '+' := by rintro rfl; exact absurd hd (by decide)
      have hminus : d ≠ '-' := by rintro rfl; exact absurd hd (by decide)
      simp only [List.map_cons, List.cons_append] at hdigits
      simp [Exponent.spelling, readExponent?, hplus, hminus, hdigits, Except.map]

theorem readExponent?_absent (h : EndsNumber rest) : readExponent? rest = .ok (none, rest) := by
  cases rest with
  | nil => rfl
  | cons a rest =>
    cases a with
    | none => rfl
    | some c => simp [readExponent?, (h c rfl).2.2.1, (h c rfl).2.2.2]

theorem endsDigits_spellExponent (e : Option Exponent) (h : EndsNumber rest) :
    EndsDigits ((spellExponent e).map some ++ rest) := by
  cases e with
  | none => exact h.endsDigits
  | some e => exact endsDigits_cons (by decide)

theorem readExponent?_spellExponent (e : Option Exponent) (he : ∀ e', e = some e' → e'.WellSpelled)
    (h : EndsNumber rest) :
    readExponent? ((spellExponent e).map some ++ rest) = .ok (e, rest) := by
  cases e with
  | none => exact readExponent?_absent h
  | some e => exact readExponent?_spelled e (he e rfl) h.endsDigits

theorem readFraction_spellFraction (hds : ∀ d ∈ ds, d.isDigit = true) (hrest : EndsDigits rest)
    (hpoint : rest.head? ≠ some (some '.')) :
    readFraction ((spellFraction ds).map some ++ rest) = .ok (ds, rest) := by
  cases ds with
  | nil =>
    cases rest with
    | nil => rfl
    | cons a rest =>
      have ha : a ≠ some '.' := fun ha => hpoint (by rw [ha, List.head?_cons])
      simp [spellFraction, readFraction, ha]
  | cons d ds =>
    have hspell : (spellFraction (d :: ds)).map some ++ rest =
        some '.' :: ((d :: ds).map some ++ rest) := rfl
    rw [hspell, readFraction, takeDigits_digits hds hrest]

theorem endsDigits_spellFraction (ds : List Char) (h : EndsDigits rest) :
    EndsDigits ((spellFraction ds).map some ++ rest) := by
  cases ds with
  | nil => exact h
  | cons d ds => exact endsDigits_cons (by decide)

theorem readWhole_digits (hds : IsDigits ds) (hzero : ∀ d ds', ds = '0' :: d :: ds' → False)
    (hrest : EndsDigits rest) : readWhole (ds.map some ++ rest) = .ok (ds, rest) := by
  rw [readWhole, takeDigits_digits hds.2 hrest]
  split
  · rename_i heq
    exact absurd (Prod.mk.inj heq).1 hds.1
  · rename_i d ds' _ heq
    exact absurd (Prod.mk.inj heq).1 (hzero d ds')
  · rename_i heq
    rw [← (Prod.mk.inj heq).1, ← (Prod.mk.inj heq).2]

def Number.unsigned (n : Number) : List Char :=
  n.whole ++ spellFraction n.fraction ++ spellExponent n.exponent

theorem Number.spelling_eq (n : Number) :
    n.spelling = (if n.negative then ['-'] else []) ++ n.unsigned := by
  obtain ⟨negative, whole, fraction, exponent⟩ := n
  cases exponent <;> simp [spelling, unsigned, spellFraction, spellExponent]

theorem numberToken_unsigned (n : Number) (h : n.WellSpelled) (hrest : EndsNumber rest) :
    numberToken n.negative (n.unsigned.map some ++ rest) = (.number n, rest) := by
  have hexponent := readExponent?_spellExponent n.exponent h.exponent hrest
  have hends := endsDigits_spellExponent n.exponent hrest
  have hpoint : ((spellExponent n.exponent).map some ++ rest).head? ≠ some (some '.') := by
    cases n.exponent with
    | none => exact fun h => (hrest '.' h).2.1 rfl
    | some e => exact fun h => absurd h (by simp [spellExponent, Exponent.spelling])
  have hfraction := readFraction_spellFraction h.fraction hends hpoint
  have hwhole := readWhole_digits h.whole h.leading
    (endsDigits_spellFraction n.fraction hends)
  have hwritten : n.unsigned.map some ++ rest = n.whole.map some ++
      ((spellFraction n.fraction).map some ++ ((spellExponent n.exponent).map some ++ rest)) := by
    simp [Number.unsigned]
  have hread : readNumber n.negative (n.unsigned.map some ++ rest) = .ok (n, rest) := by
    rw [hwritten, readNumber, hwhole]
    simp only [bind, Except.bind, hfraction, hexponent, pure, Except.pure]
  rw [numberToken, hread]

theorem readToken_digit {c : Char} (h : c.isDigit = true) (rest : List Symbol) :
    readToken (some c) rest = numberToken false (some c :: rest) := by
  unfold readToken
  split
  case h_12 heq =>
    cases heq
    rw [if_pos h]
  case h_13 heq => cases heq
  all_goals
    rename_i heq
    cases heq
    exact absurd h (by decide)

end Numbers

theorem lexes_number (n : Number) (h : n.WellSpelled) :
    Lexes EndsNumber n.spelling [.number n] := by
  obtain ⟨d, ds, hunsigned, hd⟩ : ∃ d ds, n.unsigned = d :: ds ∧ d.isDigit = true := by
    obtain ⟨hne, hds⟩ := h.whole
    cases hwhole : n.whole with
    | nil => exact absurd hwhole hne
    | cons d ds =>
      refine ⟨d, ds ++ spellFraction n.fraction ++ spellExponent n.exponent, ?_, ?_⟩
      · simp [Number.unsigned, hwhole]
      · exact hds d (by rw [hwhole]; exact List.mem_cons_self)
  rw [n.spelling_eq]
  refine ⟨by simp [hunsigned]; omega, fun fuel rest hrest => ?_⟩
  have hread := numberToken_unsigned n h hrest
  cases hsign : n.negative with
  | true =>
    rw [hsign] at hread
    exact tokensFrom_first rfl hread
  | false =>
    have hspace : isJsonSpace (some d) = false := by
      simp [isJsonSpace]
      refine ⟨⟨⟨?_, ?_⟩, ?_⟩, ?_⟩ <;> (rintro rfl; exact absurd hd (by decide))
    rw [hsign, hunsigned] at hread
    rw [hunsigned]
    exact tokensFrom_first hspace ((readToken_digit hd _).trans hread)

theorem endsNumber_cons {c : Char} {rest : List Symbol}
    (h : c.isDigit = false ∧ c ≠ '.' ∧ c ≠ 'e' ∧ c ≠ 'E') : EndsNumber (some c :: rest) := by
  intro d hd
  rw [List.head?_cons, Option.some.injEq, Option.some.injEq] at hd
  rwa [← hd]

theorem endsNumber_writeItems (depth : Nat) (items : List Value) {rest : List Symbol}
    (h : EndsNumber rest) : EndsNumber ((writeItems depth items).map some ++ rest) := by
  cases items with
  | nil => exact h
  | cons v items =>
    rw [writeItems]
    exact endsNumber_cons (by decide)

theorem endsNumber_writeMembers (depth : Nat) (members : List (String × Value))
    {rest : List Symbol} (h : EndsNumber rest) :
    EndsNumber ((writeMembers depth members).map some ++ rest) := by
  cases members with
  | nil => exact h
  | cons m members =>
    rw [writeMembers]
    exact endsNumber_cons (by decide)

theorem lexes_name (k : String) :
    Lexes Anything (writeString k ++ [':', ' ']) [.string (.ok k), .colon] := by
  have hcolon : Lexes Anything [':'] [.colon] := lexes_mark (by decide) fun _ => rfl
  have hspace : Lexes Anything [' '] [] := lexes_spaces (by simp [isJsonSpace])
  exact (lexes_string k).then (hcolon.then hspace)

theorem Lexes.bracketed {b b' : Char} {t t' : Token} {inner : List Char} (depth : Nat)
    (hopen : Lexes Anything [b] [t]) (hclose : Lexes Anything [b'] [t'])
    (h : Lexes EndsNumber inner ts) :
    Lexes Anything ([b] ++ newLine (depth + 1) ++ (inner ++ (newLine depth ++ [b'])))
      ([t] ++ [] ++ (ts ++ ([] ++ [t']))) := by
  have hbefore := hopen.then (lexes_newLine (depth + 1))
  have hafter := (lexes_newLine depth).then hclose
  exact hbefore.then (h.append hafter fun _ _ => endsNumber_cons (by decide))

-- What follows a value inside a list or object is a comma or a line break, neither of which goes on
-- with a number, so the side condition on what follows is passed on from part to part.
mutual

theorem lexes_value (depth : Nat) :
    (v : Value) → v.WellSpelled → Lexes EndsNumber (v.write depth) v.tokens
  | .null, _ => (lexes_literal (by decide) fun _ => rfl).weaken
  | .bool true, _ => (lexes_literal (by decide) fun _ => rfl).weaken
  | .bool false, _ => (lexes_literal (by decide) fun _ => rfl).weaken
  | .number n, h => lexes_number n h
  | .string s, _ => (lexes_string s).weaken
  | .array [], _ => by
    have hopen : Lexes Anything ['['] [.openList] := lexes_mark (by decide) fun _ => rfl
    have hclose : Lexes Anything [']'] [.closeList] := lexes_mark (by decide) fun _ => rfl
    exact (hopen.then hclose).weaken
  | .array (v :: items), h => by
    have hopen : Lexes Anything ['['] [.openList] := lexes_mark (by decide) fun _ => rfl
    have hclose : Lexes Anything [']'] [.closeList] := lexes_mark (by decide) fun _ => rfl
    have hinner := (lexes_value (depth + 1) v h.1).append (lexes_items (depth + 1) items h.2)
      fun _ => endsNumber_writeItems (depth + 1) items
    simpa [Value.write, Value.tokens] using (Lexes.bracketed depth hopen hclose hinner).weaken
  | .object [], _ => by
    have hopen : Lexes Anything ['\x7b'] [.openObject] := lexes_mark (by decide) fun _ => rfl
    have hclose : Lexes Anything ['\x7d'] [.closeObject] := lexes_mark (by decide) fun _ => rfl
    exact (hopen.then hclose).weaken
  | .object ((k, v) :: members), h => by
    have hopen : Lexes Anything ['\x7b'] [.openObject] := lexes_mark (by decide) fun _ => rfl
    have hclose : Lexes Anything ['\x7d'] [.closeObject] := lexes_mark (by decide) fun _ => rfl
    have hinner := (lexes_value (depth + 1) v h.1).append (lexes_members (depth + 1) members h.2)
      fun _ => endsNumber_writeMembers (depth + 1) members
    simpa [Value.write, Value.tokens] using
      (Lexes.bracketed depth hopen hclose ((lexes_name k).then hinner)).weaken

theorem lexes_items (depth : Nat) : (items : List Value) → WellSpelledItems items →
    Lexes EndsNumber (writeItems depth items) (tokensOfItems items)
  | [], _ => by simpa [writeItems, tokensOfItems] using lexes_nil
  | v :: items, h => by
    have hcomma : Lexes Anything [','] [.comma] := lexes_mark (by decide) fun _ => rfl
    have hinner := (lexes_value depth v h.1).append (lexes_items depth items h.2)
      fun _ => endsNumber_writeItems depth items
    simpa [writeItems, tokensOfItems] using
      (hcomma.then (lexes_newLine depth)).then hinner

theorem lexes_members (depth : Nat) : (members : List (String × Value)) →
    WellSpelledMembers members →
    Lexes EndsNumber (writeMembers depth members) (tokensOfMembers members)
  | [], _ => by simpa [writeMembers, tokensOfMembers] using lexes_nil
  | (k, v) :: members, h => by
    have hcomma : Lexes Anything [','] [.comma] := lexes_mark (by decide) fun _ => rfl
    have hinner := (lexes_value depth v h.1).append (lexes_members depth members h.2)
      fun _ => endsNumber_writeMembers depth members
    simpa [writeMembers, tokensOfMembers] using
      (hcomma.then (lexes_newLine depth)).then ((lexes_name k).then hinner)

end

theorem tokens_write (v : Value) (h : v.WellSpelled) :
    tokens ((v.write 0).map some) = v.tokens := by
  have hlexes := lexes_value 0 v h
  obtain ⟨fuel, hfuel⟩ := Nat.exists_eq_add_of_le hlexes.length_le
  have hcut := hlexes.cut fuel [] (by simp [EndsNumber])
  have hend : ∀ fuel, tokensFrom fuel [] = [] := by rintro (_ | _) <;> rfl
  rw [List.append_nil, hend, List.append_nil] at hcut
  rw [tokens, List.length_map, hfuel, hcut]

end ServiceMetadata.Json
