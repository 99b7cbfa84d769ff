import ServiceMetadata.Json.Node

/-!
# Written strings are read back

What is escaped in a written string is restored when the string is read, and the string ends where
its closing quotation mark was written, whatever follows.
-/
namespace ServiceMetadata.Json
open ServiceMetadata.Text (Symbol)

theorem escapeChar_cases (c : Char) :
    (∃ e, escapeChar c = ['\\', e] ∧ escapedChar (some e) = some c ∧ e ≠ 'u') ∨
    (c.toNat < 0x20 ∧ escapeChar c = ['\\', 'u', '0', '0'] ++ hexPair c.toNat) ∨
    (c ≠ '"' ∧ c ≠ '\\' ∧ ¬ c.toNat < 0x20 ∧ escapeChar c = [c]) := by
  by_cases hquote : c = '"'
  · exact .inl ⟨'"', by simp [escapeChar, hquote], by simp [escapedChar, hquote], by decide⟩
  by_cases hslash : c = '\\'
  · exact .inl ⟨'\\', by simp [escapeChar, hslash], by simp [escapedChar, hslash], by decide⟩
  by_cases hback : c = '\x08'
  · exact .inl ⟨'b', by simp [escapeChar, hback], by simp [escapedChar, hback], by decide⟩
  by_cases hfeed : c = '\x0c'
  · exact .inl ⟨'f', by simp [escapeChar, hfeed], by simp [escapedChar, hfeed], by decide⟩
  by_cases hline : c = '\n'
  · exact .inl ⟨'n', by simp [escapeChar, hline], by simp [escapedChar, hline], by decide⟩
  by_cases hreturn : c = '\r'
  · exact .inl ⟨'r', by simp [escapeChar, hreturn], by simp [escapedChar, hreturn], by decide⟩
  by_cases htab : c = '\t'
  · exact .inl ⟨'t', by simp [escapeChar, htab], by simp [escapedChar, htab], by decide⟩
  right
  by_cases hcontrol : c.toNat < 0x20
  · refine .inl ⟨hcontrol, ?_⟩
    rw [escapeChar, if_neg hquote, if_neg hslash, if_neg hback, if_neg hfeed, if_neg hline,
      if_neg hreturn, if_neg htab, if_pos hcontrol]
  · refine .inr ⟨hquote, hslash, hcontrol, ?_⟩
    rw [escapeChar, if_neg hquote, if_neg hslash, if_neg hback, if_neg hfeed, if_neg hline,
      if_neg hreturn, if_neg htab, if_neg hcontrol]

theorem hexCode_hexPair : ∀ n < 0x20, hexCode (some '0') (some '0')
    (some (Nat.digitChar (n / 16))) (some (Nat.digitChar (n % 16))) = some n := by
  decide

section
variable {c e : Char} {n : Nat} {a₁ a₂ a₃ a₄ : Symbol} (rest : List Symbol)

theorem skipString_letter (h : escapedChar (some e) = some c) (hu : e ≠ 'u') :
    skipString (some '\\' :: some e :: rest) = skipString rest := by
  rw [skipString] <;> simp [h, hu]

theorem readSymbols_letter (h : escapedChar (some e) = some c) (hu : e ≠ 'u') :
    readSymbols (some '\\' :: some e :: rest) = (readSymbols rest).map (some c :: ·) := by
  rw [readSymbols] <;> simp [h, hu]

theorem skipString_code (h : hexCode a₁ a₂ a₃ a₄ = some n) :
    skipString (some '\\' :: some 'u' :: a₁ :: a₂ :: a₃ :: a₄ :: rest) = skipString rest := by
  rw [skipString, h]

theorem readSymbols_code (h : hexCode a₁ a₂ a₃ a₄ = some n) (hn : n < 0xD800) :
    readSymbols (some '\\' :: some 'u' :: a₁ :: a₂ :: a₃ :: a₄ :: rest) =
      (readSymbols rest).map (some (Char.ofNat n) :: ·) := by
  simp [readSymbols, h, hn]

theorem skipString_plain (hquote : c ≠ '"') (hslash : c ≠ '\\') (hcontrol : ¬ c.toNat < 0x20) :
    skipString (some c :: rest) = skipString rest := by
  rw [skipString] <;> simp [hquote, hslash, isControl, hcontrol]

theorem readSymbols_plain (hquote : c ≠ '"') (hslash : c ≠ '\\') (hcontrol : ¬ c.toNat < 0x20) :
    readSymbols (some c :: rest) = (readSymbols rest).map (some c :: ·) := by
  rw [readSymbols] <;> simp [hquote, hslash, isControl, hcontrol]

end

theorem skipString_escapeChar (c : Char) (rest : List Symbol) :
    skipString ((escapeChar c).map some ++ rest) = skipString rest := by
  rcases escapeChar_cases c with ⟨e, hescape, he, hu⟩ | ⟨hcontrol, hescape⟩ |
    ⟨hquote, hslash, hcontrol, hescape⟩
  · rw [hescape]
    exact skipString_letter rest he hu
  · rw [hescape]
    exact skipString_code rest (hexCode_hexPair c.toNat hcontrol)
  · rw [hescape]
    exact skipString_plain rest hquote hslash hcontrol

theorem readSymbols_escapeChar (c : Char) (rest : List Symbol) :
    readSymbols ((escapeChar c).map some ++ rest) = (readSymbols rest).map (some c :: ·) := by
  rcases escapeChar_cases c with ⟨e, hescape, he, hu⟩ | ⟨hcontrol, hescape⟩ |
    ⟨hquote, hslash, hcontrol, hescape⟩
  · rw [hescape]
    exact readSymbols_letter rest he hu
  · have hcode := readSymbols_code rest (hexCode_hexPair c.toNat hcontrol) (by omega)
    rw [hescape]
    rwa [Char.ofNat_toNat] at hcode
  · rw [hescape]
    exact readSymbols_plain rest hquote hslash hcontrol

theorem skipString_escaped (cs : List Char) (rest : List Symbol) :
    skipString ((cs.flatMap escapeChar).map some ++ some '"' :: rest) = .ok rest := by
  induction cs with
  | nil => rw [List.flatMap_nil, List.map_nil, List.nil_append, skipString]
  | cons c cs ih =>
    rw [List.flatMap_cons, List.map_append, List.append_assoc, skipString_escapeChar, ih]

theorem readSymbols_escaped (cs : List Char) (rest : List Symbol) :
    readSymbols ((cs.flatMap escapeChar).map some ++ some '"' :: rest) = .ok (cs.map some) := by
  induction cs with
  | nil => rw [List.flatMap_nil, List.map_nil, List.nil_append, readSymbols]
  | cons c cs ih =>
    rw [List.flatMap_cons, List.map_append, List.append_assoc, readSymbols_escapeChar, ih]
    rfl

theorem mapM_id_map_some (cs : List Char) : (cs.map some).mapM id = some cs := by
  induction cs with
  | nil => rfl
  | cons c cs ih => simp [List.mapM_cons, ih]

theorem stringToken_escaped (s : String) (rest : List Symbol) :
    stringToken ((s.toList.flatMap escapeChar).map some ++ some '"' :: rest) =
      (.string (.ok s), rest) := by
  have hread : readString ((s.toList.flatMap escapeChar).map some ++ some '"' :: rest) =
      .ok s := by
    simp only [readString, readSymbols_escaped, mapM_id_map_some, String.ofList_toList]
  simp only [stringToken, skipString_escaped, hread]

end ServiceMetadata.Json
