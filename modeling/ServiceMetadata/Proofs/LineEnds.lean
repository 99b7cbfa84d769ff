import Mathlib.Data.List.DropRight
import ServiceMetadata.Proofs.Text.Bytes
import ServiceMetadata.Proofs.VersionSources

/-!
# The bytes of the first line

What stands before the first line feed has to be text, and what is left of it without the carriage
returns at its end is the line. Nothing behind the line feed is looked at, and it makes no
difference whether lines end with a line feed alone or with a carriage return in front of it.
-/
namespace ServiceMetadata

variable {bytes other : ByteArray} {l l' : List UInt8} {line : String}

def beforeLineFeed (bytes : ByteArray) : List UInt8 := bytes.data.toList.takeWhile (· ≠ lineFeed)

def withoutReturns (l : List UInt8) : List UInt8 := l.rdropWhile (· = carriageReturn)

theorem withoutReturns_eq_nil_iff : withoutReturns l = [] ↔ ∀ c ∈ l, c = carriageReturn := by
  simp [withoutReturns, List.rdropWhile_eq_nil_iff]

theorem withoutReturns_concat : withoutReturns (l ++ [carriageReturn]) = withoutReturns l :=
  List.rdropWhile_concat_pos _ l carriageReturn (by simp)

theorem isValidUTF8_withoutReturns :
    (withoutReturns l).toByteArray.IsValidUTF8 ↔ l.toByteArray.IsValidUTF8 := by
  have hreturns : ∀ c ∈ l.rtakeWhile (· = carriageReturn), c.toNat < 128 := by
    intro c hc
    have hreturn : c = carriageReturn := by simpa using List.mem_rtakeWhile_imp hc
    rw [hreturn]
    decide
  have hsplit : withoutReturns l ++ l.rtakeWhile (· = carriageReturn) = l :=
    List.rdropWhile_append_rtakeWhile
  rw [← Text.isValidUTF8_append hreturns, hsplit]

theorem firstLine_eq_some_iff_bytes :
    firstLine bytes = some line ↔
      line ≠ "" ∧ line.toUTF8.data.toList = withoutReturns (beforeLineFeed bytes) := by
  rw [firstLine_eq_some_iff, ← lineBytes_eq_iff]
  exact and_congr_right fun _ => eq_comm

theorem firstLine_eq_none_iff :
    firstLine bytes = none ↔ ¬ (beforeLineFeed bytes).toByteArray.IsValidUTF8 ∨
      ∀ c ∈ beforeLineFeed bytes, c = carriageReturn := by
  rw [← isValidUTF8_withoutReturns, ← withoutReturns_eq_nil_iff, ← Text.exists_text_iff]
  constructor
  · intro hnone
    by_contra hline
    obtain ⟨⟨text, htext⟩, hne⟩ := by simpa only [not_or, not_not] using hline
    rw [← htext, Text.toUTF8_toList_eq_nil_iff] at hne
    simp [firstLine_eq_some_iff_bytes.2 ⟨hne, htext⟩] at hnone
  · intro h
    rw [Option.eq_none_iff_forall_ne_some]
    intro text hsome
    obtain ⟨hne, htext⟩ := firstLine_eq_some_iff_bytes.1 hsome
    rcases h with hinvalid | hnil
    · exact hinvalid ⟨text, htext⟩
    · exact hne (Text.toUTF8_toList_eq_nil_iff.1 (htext.trans hnil))

theorem firstLine_plain (h : firstLine bytes = some line) :
    '\n' ∉ line.toList ∧ line.toList.getLast? ≠ some '\r' := by
  obtain ⟨-, hfront⟩ := firstLine_eq_some_iff.1 h
  have hplain := hfront.plain
  have hlast := hfront.last
  rw [Text.toUTF8_toList] at hplain hlast
  constructor
  · intro hmem
    exact hplain (List.mem_flatMap.2 ⟨'\n', hmem, by decide⟩)
  · intro hreturn
    obtain ⟨cs, hcs⟩ := List.getLast?_eq_some_iff.1 hreturn
    apply hlast
    rw [hcs, List.flatMap_append, List.flatMap_singleton, List.getLast?_append]
    rfl

theorem firstLine_congr (h : withoutReturns (beforeLineFeed other) =
    withoutReturns (beforeLineFeed bytes)) : firstLine other = firstLine bytes := by
  ext line
  rw [firstLine_eq_some_iff_bytes, firstLine_eq_some_iff_bytes, h]

def AgreeThroughLineFeed (bytes other : ByteArray) : Prop :=
  ∃ l rest rest', bytes.data.toList = l ++ lineFeed :: rest ∧
    other.data.toList = l ++ lineFeed :: rest'

theorem takeWhile_through (l rest : List UInt8) :
    (l ++ lineFeed :: rest).takeWhile (· ≠ lineFeed) = l.takeWhile (· ≠ lineFeed) := by
  induction l with
  | nil => rfl
  | cons c l ih =>
    rw [List.cons_append, List.takeWhile_cons, List.takeWhile_cons, ih]

theorem AgreeThroughLineFeed.firstLine_eq (h : AgreeThroughLineFeed bytes other) :
    firstLine other = firstLine bytes := by
  obtain ⟨l, rest, rest', hbytes, hother⟩ := h
  apply firstLine_congr
  rw [beforeLineFeed, beforeLineFeed, hbytes, hother, takeWhile_through, takeWhile_through]

inductive ReturnsAdded : List UInt8 → List UInt8 → Prop
  | nil : ReturnsAdded [] []
  | byte (c : UInt8) {l l' : List UInt8} (h : ReturnsAdded l l') : ReturnsAdded (c :: l) (c :: l')
  | lineEnd {l l' : List UInt8} (h : ReturnsAdded l l') :
      ReturnsAdded (lineFeed :: l) (carriageReturn :: lineFeed :: l')

theorem ReturnsAdded.takeWhile_eq (h : ReturnsAdded l l') :
    l'.takeWhile (· ≠ lineFeed) = l.takeWhile (· ≠ lineFeed) ∨
      l'.takeWhile (· ≠ lineFeed) = l.takeWhile (· ≠ lineFeed) ++ [carriageReturn] := by
  induction h with
  | nil => exact .inl rfl
  | byte c _ ih =>
    by_cases hc : c = lineFeed
    · simp [hc]
    · simpa [hc] using ih
  | lineEnd _ _ => exact .inr rfl

theorem ReturnsAdded.firstLine_eq (h : ReturnsAdded bytes.data.toList other.data.toList) :
    firstLine other = firstLine bytes := by
  apply firstLine_congr
  rcases h.takeWhile_eq with heq | heq
  · rw [beforeLineFeed, heq, beforeLineFeed]
  · rw [beforeLineFeed, heq, withoutReturns_concat, beforeLineFeed]

namespace Project

variable {p : Project}

theorem versionLine_of_read (hread : p.tree.read (versionPath p.directory) = .ok bytes) :
    p.versionLine = firstLine bytes := by
  rw [versionLine, hread]

/-- The version file gives the bytes before its first line feed, without the returns at their end,
if they are text and anything is left. What comes behind the line feed has no influence on it, and
neither have returns in front of line feeds. -/
theorem versionLine_of_bytes (hread : p.tree.read (versionPath p.directory) = .ok bytes) :
    (p.versionLine = none ↔ ¬ (beforeLineFeed bytes).toByteArray.IsValidUTF8 ∨
      ∀ c ∈ beforeLineFeed bytes, c = carriageReturn) ∧
    (∀ line, p.versionLine = some line →
      line.toUTF8.data.toList = (beforeLineFeed bytes).rdropWhile (· = carriageReturn) ∧
      line ≠ "" ∧ '\n' ∉ line.toList ∧ line.toList.getLast? ≠ some '\r') ∧
    ∀ (q : Project) (other : ByteArray), q.tree.read (versionPath q.directory) = .ok other →
      AgreeThroughLineFeed bytes other ∨ ReturnsAdded bytes.data.toList other.data.toList →
      q.versionLine = p.versionLine ∧
        ∀ line, p.versionLine = some line → ∀ kind explicit,
          q.version kind explicit = p.version kind explicit := by
  rw [versionLine_of_read hread]
  refine ⟨firstLine_eq_none_iff, fun line hline => ?_, fun q other hother hsame => ?_⟩
  · obtain ⟨hne, hbytes⟩ := firstLine_eq_some_iff_bytes.1 hline
    exact ⟨hbytes, hne, firstLine_plain hline⟩
  · have hline : firstLine other = firstLine bytes :=
      hsame.elim AgreeThroughLineFeed.firstLine_eq ReturnsAdded.firstLine_eq
    rw [versionLine_of_read hother]
    refine ⟨hline, fun line hgiven kind explicit => ?_⟩
    have hp : p.LineGiven line :=
      versionLine_eq_some_iff.1 ((versionLine_of_read hread).trans hgiven)
    have hq : q.LineGiven line :=
      versionLine_eq_some_iff.1 ((versionLine_of_read hother).trans (hline.trans hgiven))
    exact version_of_same_line hp hq

def withVersionFile (bytes : List UInt8) : Project where
  tree := { current := [], entries := [(["VERSION".toList], .file bytes.toByteArray)] }
  directory := "."

def lineWithReturns : List UInt8 := [0x31, 13, 0x32, 13, 13, 10, 0xFF]

theorem versionLine_of_bytes_with_returns :
    (withVersionFile lineWithReturns).versionLine = some "1\r2" ∧
      (withVersionFile [0x31, 13, 0x32, 13, 13, 10]).versionLine = some "1\r2" ∧
      (withVersionFile [0x31, 13, 0x32, 13, 13, 13, 10, 0xFF]).version .service none =
        some "1\r2" := by
  have hline : (withVersionFile lineWithReturns).versionLine = some "1\r2" := by decide +kernel
  have hread : (withVersionFile lineWithReturns).tree.read (versionPath ".") =
      .ok lineWithReturns.toByteArray := toOption_eq_some_iff.1 (by decide +kernel)
  obtain ⟨-, -, hsame⟩ := versionLine_of_bytes hread
  have hagree := hsame (withVersionFile [0x31, 13, 0x32, 13, 13, 10])
    [0x31, 13, 0x32, 13, 13, 10].toByteArray (toOption_eq_some_iff.1 (by decide +kernel))
    (.inl ⟨[0x31, 13, 0x32, 13, 13], [0xFF], [], rfl, rfl⟩)
  have hreturns := hsame (withVersionFile [0x31, 13, 0x32, 13, 13, 13, 10, 0xFF])
    [0x31, 13, 0x32, 13, 13, 13, 10, 0xFF].toByteArray (toOption_eq_some_iff.1 (by decide +kernel))
    (.inr (.byte _ (.byte _ (.byte _ (.byte _ (.byte _ (.lineEnd (.byte _ .nil))))))))
  have hversion : (withVersionFile lineWithReturns).version .service none = some "1\r2" :=
    version_of_line (.inl rfl) (versionLine_eq_some_iff.1 hline)
  exact ⟨hline, hagree.1.trans hline, (hreturns.2 _ hline .service none).trans hversion⟩

end Project
end ServiceMetadata
