import Mathlib.Data.List.TakeWhile
import ServiceMetadata.Version

/-!
# The first line of a file

The first line of a file ends before the first line feed, or where the file ends, and the carriage
returns in front of that do not belong to it.
-/
namespace ServiceMetadata

/-- The line stands at the front of the bytes, up to carriage returns that go before a line feed or
the end. -/
structure LineAtFront (line bytes : List UInt8) : Prop where
  split : ∃ ends rest, bytes = line ++ ends ++ rest ∧ (∀ c ∈ ends, c = carriageReturn) ∧
    ∀ c, rest.head? = some c → c = lineFeed
  plain : lineFeed ∉ line
  last : line.getLast? ≠ some carriageReturn

theorem takeWhile_line {l rest : List UInt8} (hl : lineFeed ∉ l)
    (hrest : ∀ c, rest.head? = some c → c = lineFeed) :
    (l ++ rest).takeWhile (· ≠ lineFeed) = l := by
  have hplain : ∀ c ∈ l, decide (c ≠ lineFeed) = true := by
    intro c hc
    simpa using fun h : c = lineFeed => hl (h ▸ hc)
  have hstop : rest.takeWhile (· ≠ lineFeed) = [] := by
    cases rest with
    | nil => rfl
    | cons c rest => simp [hrest c rfl]
  rw [List.takeWhile_append_of_pos hplain, hstop, List.append_nil]

theorem dropWhile_line {line ends : List UInt8} (hends : ∀ c ∈ ends, c = carriageReturn)
    (hlast : line.getLast? ≠ some carriageReturn) :
    ((line ++ ends).reverse.dropWhile (· = carriageReturn)).reverse = line := by
  have hall : ∀ c ∈ ends.reverse, decide (c = carriageReturn) = true := by
    intro c hc
    simpa using hends c (List.mem_reverse.1 hc)
  have hstop : line.reverse.dropWhile (· = carriageReturn) = line.reverse := by
    rw [← List.head?_reverse] at hlast
    cases hline : line.reverse with
    | nil => rfl
    | cons c rest =>
      have hc : c ≠ carriageReturn := by simpa [hline] using hlast
      simp [hc]
  rw [List.reverse_append, List.dropWhile_append_of_pos hall, hstop, List.reverse_reverse]

theorem lineAtFront_lineBytes (bytes : List UInt8) : LineAtFront (lineBytes bytes) bytes := by
  have hplain : lineFeed ∉ bytes.takeWhile (· ≠ lineFeed) := by
    intro hmem
    simpa using List.mem_takeWhile_imp hmem
  obtain ⟨ends, hends, hline⟩ : ∃ ends, (∀ c ∈ ends, c = carriageReturn) ∧
      lineBytes bytes ++ ends = bytes.takeWhile (· ≠ lineFeed) := by
    refine ⟨((bytes.takeWhile (· ≠ lineFeed)).reverse.takeWhile (· = carriageReturn)).reverse,
      fun c hc => ?_, ?_⟩
    · simpa using List.mem_takeWhile_imp (List.mem_reverse.1 hc)
    · rw [lineBytes, ← List.reverse_append, List.takeWhile_append_dropWhile, List.reverse_reverse]
  refine ⟨⟨ends, bytes.dropWhile (· ≠ lineFeed), ?_, hends, fun c hc => ?_⟩, fun hmem => ?_,
    fun hlast => ?_⟩
  · rw [hline, List.takeWhile_append_dropWhile]
  · have hnot := List.head?_dropWhile_not (fun c => decide (c ≠ lineFeed)) bytes
    rw [hc] at hnot
    simpa using hnot
  · exact hplain (hline ▸ List.mem_append_left _ hmem)
  · rw [lineBytes, List.getLast?_reverse] at hlast
    have hnot := List.head?_dropWhile_not (fun c => decide (c = carriageReturn))
      (bytes.takeWhile (· ≠ lineFeed)).reverse
    rw [hlast] at hnot
    simp at hnot

theorem lineBytes_eq_iff {line bytes : List UInt8} :
    lineBytes bytes = line ↔ LineAtFront line bytes := by
  constructor
  · intro h
    obtain rfl := h
    exact lineAtFront_lineBytes bytes
  · intro h
    obtain ⟨ends, rest, rfl, hends, hrest⟩ := h.split
    have hplain : lineFeed ∉ line ++ ends := by
      rw [List.mem_append, not_or]
      exact ⟨h.plain, fun hmem => absurd (hends _ hmem) (by decide)⟩
    rw [lineBytes, takeWhile_line hplain hrest, dropWhile_line hends h.last]

theorem fromUTF8?_eq_some_iff {bytes : ByteArray} {text : String} :
    String.fromUTF8? bytes = some text ↔ text.toUTF8 = bytes := by
  rw [String.fromUTF8?]
  constructor
  · intro h
    split at h
    · obtain rfl := Option.some.inj h
      rfl
    · simp at h
  · intro h
    obtain rfl := h
    exact dif_pos text.isValidUTF8

theorem firstLine_eq_some_iff {bytes : ByteArray} {line : String} :
    firstLine bytes = some line ↔
      line ≠ "" ∧ LineAtFront line.toUTF8.data.toList bytes.data.toList := by
  rw [firstLine, Option.filter_eq_some_iff, fromUTF8?_eq_some_iff, ← lineBytes_eq_iff,
    decide_eq_true_iff, and_comm]
  refine and_congr_right fun _ => ⟨fun h => ?_, fun h => ?_⟩
  · rw [h, List.data_toByteArray, List.toList_toArray]
  · apply ByteArray.ext
    rw [h, List.data_toByteArray, Array.toArray_toList]

end ServiceMetadata
