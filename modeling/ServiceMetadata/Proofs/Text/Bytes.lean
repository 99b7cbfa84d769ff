import Mathlib.Data.List.Induction

/-!
# The bytes that spell a text

A character below 128 is spelled by one byte, its own number, and every other character by bytes of
128 and more. So bytes that spell a text go on doing so when such a character is cut off their end.
The order of the characters is that of the bytes, whatever texts they stand in.
-/
namespace ServiceMetadata.Text

variable {c d : Char} {b : UInt8} {bytes ends : List UInt8} {s t : String}

theorem toUTF8_toList (s : String) :
    s.toUTF8.data.toList = s.toList.flatMap String.utf8EncodeChar := by
  have hencode : s.toUTF8 = (s.toList.flatMap String.utf8EncodeChar).toByteArray :=
    String.utf8Encode_toList.symm
  rw [hencode, List.data_toByteArray, List.toList_toArray]

theorem toNat_le (c : Char) : c.toNat ≤ 0x10FFFF := by
  have hvalid : c.toNat.isValidChar := c.valid
  rcases hvalid with h | h <;> omega

theorem encode_cases (c : Char) :
    (c.toNat < 0x80 ∧ String.utf8EncodeChar c = [UInt8.ofNat c.toNat]) ∨
    (0x80 ≤ c.toNat ∧ c.toNat < 0x800 ∧ String.utf8EncodeChar c =
      [.ofNat (c.toNat / 64 + 192), .ofNat (c.toNat % 64 + 128)]) ∨
    (0x800 ≤ c.toNat ∧ c.toNat < 0x10000 ∧ String.utf8EncodeChar c =
      [.ofNat (c.toNat / 4096 + 224), .ofNat (c.toNat / 64 % 64 + 128),
        .ofNat (c.toNat % 64 + 128)]) ∨
    (0x10000 ≤ c.toNat ∧ c.toNat ≤ 0x10FFFF ∧ String.utf8EncodeChar c =
      [.ofNat (c.toNat / 262144 + 240), .ofNat (c.toNat / 4096 % 64 + 128),
        .ofNat (c.toNat / 64 % 64 + 128), .ofNat (c.toNat % 64 + 128)]) := by
  have hle := toNat_le c
  have hval : c.val.toNat = c.toNat := rfl
  simp only [String.utf8EncodeChar, hval]
  by_cases h₁ : c.toNat ≤ 127
  · rw [if_pos h₁]
    exact .inl ⟨by omega, rfl⟩
  rw [if_neg h₁]
  by_cases h₂ : c.toNat ≤ 2047
  · rw [if_pos h₂, Nat.mod_eq_of_lt (show c.toNat / 64 < 32 by omega)]
    exact .inr (.inl ⟨by omega, by omega, rfl⟩)
  rw [if_neg h₂]
  by_cases h₃ : c.toNat ≤ 65535
  · rw [if_pos h₃, Nat.mod_eq_of_lt (show c.toNat / 4096 < 16 by omega)]
    exact .inr (.inr (.inl ⟨by omega, by omega, rfl⟩))
  rw [if_neg h₃, Nat.mod_eq_of_lt (show c.toNat / 262144 < 8 by omega)]
  exact .inr (.inr (.inr ⟨by omega, by omega, rfl⟩))

theorem ofNat_lt_ofNat {m n : Nat} (hm : m < 256) (hn : n < 256) :
    UInt8.ofNat m < UInt8.ofNat n ↔ m < n :=
  UInt8.ofNat_lt_iff_lt hm hn

theorem ofNat_eq_ofNat {m n : Nat} (hm : m < 256) (hn : n < 256) :
    UInt8.ofNat m = UInt8.ofNat n ↔ m = n := by
  rw [← UInt8.toNat_inj, UInt8.toNat_ofNat', UInt8.toNat_ofNat', Nat.mod_eq_of_lt hm,
    Nat.mod_eq_of_lt hn]

/-- Two different characters are told apart by their bytes before either ends. -/
theorem encode_append_lt (h : c < d) (l r : List UInt8) :
    String.utf8EncodeChar c ++ l < String.utf8EncodeChar d ++ r := by
  have hlt : c.toNat < d.toNat := h
  rcases encode_cases c with ⟨hc, hcode⟩ | ⟨hc, hc', hcode⟩ | ⟨hc, hc', hcode⟩ | ⟨hc, hc', hcode⟩ <;>
  rcases encode_cases d with ⟨hd, hdcode⟩ | ⟨hd, hd', hdcode⟩ | ⟨hd, hd', hdcode⟩ |
    ⟨hd, hd', hdcode⟩ <;>
  rw [hcode, hdcode] <;>
  simp (disch := omega) only [List.cons_append, List.nil_append, List.cons_lt_cons_iff,
    ofNat_lt_ofNat, ofNat_eq_ofNat] <;>
  omega

theorem flatMap_encode_lt {cs ds : List Char} (h : cs < ds) :
    cs.flatMap String.utf8EncodeChar < ds.flatMap String.utf8EncodeChar := by
  induction cs generalizing ds with
  | nil =>
    cases ds with
    | nil => exact absurd h (List.lt_irrefl [])
    | cons d ds =>
      rw [List.flatMap_cons]
      cases hd : String.utf8EncodeChar d with
      | nil => exact absurd hd (String.utf8EncodeChar_ne_nil)
      | cons b rest => exact List.nil_lt_cons _ _
  | cons c cs ih =>
    cases ds with
    | nil => exact absurd h (List.not_lt_nil _)
    | cons d ds =>
      rw [List.flatMap_cons, List.flatMap_cons]
      rcases List.cons_lt_cons_iff.1 h with hlt | ⟨rfl, hlt⟩
      · exact encode_append_lt hlt _ _
      · exact List.append_left_lt (ih hlt)

theorem toUTF8_lt_of_lt (h : s < t) : s.toUTF8.data.toList < t.toUTF8.data.toList := by
  rw [toUTF8_toList, toUTF8_toList]
  exact flatMap_encode_lt (String.lt_iff.1 h)

theorem encode_of_getLast (hb : b.toNat < 128)
    (h : (String.utf8EncodeChar c).getLast? = some b) : String.utf8EncodeChar c = [b] := by
  have hhigh : ∀ n : Nat, UInt8.ofNat (n % 64 + 128) ≠ b := by
    rintro n rfl
    rw [UInt8.toNat_ofNat'] at hb
    omega
  rcases encode_cases c with ⟨-, hcode⟩ | ⟨-, -, hcode⟩ | ⟨-, -, hcode⟩ | ⟨-, -, hcode⟩ <;>
    rw [hcode] at h ⊢
  · exact congrArg (fun b => [b]) (Option.some.inj h)
  all_goals exact absurd (Option.some.inj h) (hhigh _)

theorem isValidUTF8_iff :
    bytes.toByteArray.IsValidUTF8 ↔ ∃ cs : List Char, bytes = cs.flatMap String.utf8EncodeChar := by
  constructor
  · rintro ⟨cs, hcs⟩
    have hdata := congrArg (·.data.toList) hcs
    simp only [List.utf8Encode, List.data_toByteArray, List.toList_toArray] at hdata
    exact ⟨cs, hdata⟩
  · rintro ⟨cs, rfl⟩
    exact ⟨cs, rfl⟩

theorem isValidUTF8_concat (hb : b.toNat < 128) :
    (bytes ++ [b]).toByteArray.IsValidUTF8 ↔ bytes.toByteArray.IsValidUTF8 := by
  rw [isValidUTF8_iff, isValidUTF8_iff]
  constructor
  · rintro ⟨cs, hcs⟩
    cases cs using List.reverseRecOn with
    | nil => simp at hcs
    | append_singleton cs c =>
      rw [List.flatMap_append, List.flatMap_singleton] at hcs
      have hlast := congrArg List.getLast? hcs
      rw [List.getLast?_concat, List.getLast?_append] at hlast
      have hcode : (String.utf8EncodeChar c).getLast? = some b := by
        cases hc : (String.utf8EncodeChar c).getLast? with
        | none => exact absurd (List.getLast?_eq_none_iff.1 hc) String.utf8EncodeChar_ne_nil
        | some b' => rw [hlast, hc, Option.some_or]
      rw [encode_of_getLast hb hcode] at hcs
      exact ⟨cs, List.append_cancel_right hcs⟩
  · rintro ⟨cs, rfl⟩
    refine ⟨cs ++ [Char.ofUInt8 b], ?_⟩
    have hcode : (Char.ofUInt8 b).toNat = b.toNat := UInt8.toNat_toUInt32 b
    rcases encode_cases (Char.ofUInt8 b) with ⟨-, hcode'⟩ | ⟨hge, -⟩ | ⟨hge, -⟩ | ⟨hge, -⟩
    · rw [List.flatMap_append, List.flatMap_singleton, hcode', hcode, UInt8.ofNat_toNat]
    all_goals omega

theorem isValidUTF8_append (h : ∀ b ∈ ends, b.toNat < 128) :
    (bytes ++ ends).toByteArray.IsValidUTF8 ↔ bytes.toByteArray.IsValidUTF8 := by
  induction ends using List.reverseRecOn with
  | nil => rw [List.append_nil]
  | append_singleton ends b ih =>
    rw [← List.append_assoc, isValidUTF8_concat (h b (by simp)),
      ih fun b' hb' => h b' (List.mem_append_left _ hb')]

theorem exists_text_iff :
    (∃ text : String, text.toUTF8.data.toList = bytes) ↔ bytes.toByteArray.IsValidUTF8 := by
  simp only [toUTF8_toList, isValidUTF8_iff]
  constructor
  · rintro ⟨text, rfl⟩
    exact ⟨text.toList, rfl⟩
  · rintro ⟨cs, rfl⟩
    exact ⟨String.ofList cs, by rw [String.toList_ofList]⟩

theorem toUTF8_toList_eq_nil_iff : s.toUTF8.data.toList = [] ↔ s = "" := by
  rw [toUTF8_toList, ← String.toList_eq_nil_iff]
  cases s.toList with
  | nil => simp
  | cons c cs => simp [String.utf8EncodeChar_ne_nil]

end ServiceMetadata.Text
