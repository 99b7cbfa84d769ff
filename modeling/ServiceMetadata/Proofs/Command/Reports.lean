import ServiceMetadata.Command.Run
import ServiceMetadata.Proofs.Batch.Accounts

/-!
# The lines of a report

What a command reports goes out message by message, each with a line feed after it. If the output
root and the names of the classes have no line feed in them, neither has any message about a batch,
so the text has one line for every message.
-/
namespace ServiceMetadata

variable {s s' : String}

def IsLine (s : String) : Prop := '\n' ∉ s.toList

instance (s : String) : Decidable (IsLine s) := inferInstanceAs (Decidable (¬ _))

theorem isLine_append : IsLine (s ++ s') ↔ IsLine s ∧ IsLine s' := by
  simp [IsLine, not_or]

theorem isLine_number (n : Nat) : IsLine (toString n) := by
  intro h
  rw [Nat.toString_eq_repr, Nat.toList_repr] at h
  exact absurd (Nat.isDigit_of_mem_toDigits (by decide) (by decide) h) (by decide)

theorem isLine_fileError (e : FileError) : IsLine e.message := by
  cases e <;> decide +kernel

theorem isLine_join (h : IsLine s) (h' : IsLine s') : IsLine (Path.join s s') := by
  have hslash : IsLine "/" := by decide
  unfold Path.join
  split
  · exact h'
  · split
    · exact isLine_append.2 ⟨h, h'⟩
    · exact isLine_append.2 ⟨isLine_append.2 ⟨h, hslash⟩, h'⟩

def linesOf (text : String) : List String := (text.toList.splitOn '\n').dropLast.map String.ofList

theorem linesOf_join {lines : List String} (h : ∀ line ∈ lines, IsLine line) :
    linesOf (String.join (lines.map (· ++ "\n"))) = lines := by
  have hsplit : (String.join (lines.map (· ++ "\n"))).toList.splitOn '\n' =
      lines.map String.toList ++ [[]] := by
    induction lines with
    | nil => rfl
    | cons line lines ih =>
      have hrest := ih fun l hl => h l (List.mem_cons_of_mem _ hl)
      rw [List.map_cons, String.join_cons, String.toList_append, String.toList_append,
        List.append_assoc]
      have hline : '\n' ∉ line.toList := h line List.mem_cons_self
      exact (List.splitOn_append_cons_self_of_not_mem hline _).trans (congrArg (_ :: ·) hrest)
  rw [linesOf, hsplit, List.dropLast_concat, List.map_map]
  simp

/-- What a command puts on the error stream. -/
def Response.errorText (r : Response) : String := String.join (r.messages.map (· ++ "\n"))

structure Report.OfLines (r : Report) : Prop where
  written : ∀ path ∈ r.written, IsLine path
  skipped : ∀ name ∈ r.skipped, IsLine name
  failed : ∀ failure ∈ r.failed, IsLine failure.1 ∧ IsLine failure.2.message

namespace Batch

variable {b : Batch} {t : FileTree} {js : List Job} {r : Report}

theorem isLine_descriptorPath (hroot : IsLine b.outputRoot) (h : IsLine s) :
    IsLine (b.descriptorPath s) :=
  isLine_join hroot (isLine_append.2 ⟨h, by decide⟩)

theorem Accounts.ofLines (h : Accounts b t js r) (hroot : IsLine b.outputRoot)
    (hnames : ∀ job ∈ js, IsLine job.element.name) : r.OfLines := by
  induction h with
  | nil => exact ⟨by simp, by simp, by simp⟩
  | skipped hkind rest ih =>
    rw [List.forall_mem_cons] at hnames
    have hrest := ih hnames.2
    exact ⟨hrest.written, List.forall_mem_cons.2 ⟨hnames.1, hrest.skipped⟩, hrest.failed⟩
  | written hkind hpath rest ih =>
    rw [List.forall_mem_cons] at hnames
    have hrest := ih hnames.2
    have hline := isLine_descriptorPath hroot hnames.1
    exact ⟨List.forall_mem_cons.2 ⟨hline, hrest.written⟩, hrest.skipped, hrest.failed⟩
  | failed hkind hpath cause rest ih =>
    rw [List.forall_mem_cons] at hnames
    have hrest := ih hnames.2
    have hline := isLine_descriptorPath hroot hnames.1
    have hmessage : IsLine (Error.file (b.descriptorPath _) cause).message :=
      isLine_append.2 ⟨isLine_append.2 ⟨isLine_append.2 ⟨by decide, hline⟩, by decide⟩,
        isLine_fileError cause⟩
    exact ⟨hrest.written, hrest.skipped,
      List.forall_mem_cons.2 ⟨⟨hnames.1, hmessage⟩, hrest.failed⟩⟩

end Batch

namespace Command

theorem isLine_summary (r : Report) : IsLine (summary r) := by
  have hfirst : IsLine (if r.isClean then "ok" else "done") := by split <;> decide
  simp only [summary, isLine_append, isLine_number, hfirst]
  decide

theorem isLine_of_mem_reportLines {r : Report} {line : String} (h : r.OfLines)
    (hline : line ∈ reportLines r) : IsLine line := by
  simp only [reportLines, List.mem_append, List.mem_map, List.mem_singleton] at hline
  rcases hline with
    ((⟨path, hpath, rfl⟩ | ⟨name, hname, rfl⟩) | ⟨⟨name, cause⟩, hfailure, rfl⟩) | rfl
  · exact isLine_append.2 ⟨by decide, h.written path hpath⟩
  · exact isLine_append.2 ⟨isLine_append.2 ⟨by decide, h.skipped name hname⟩, by decide⟩
  · obtain ⟨hname, hmessage⟩ := h.failed _ hfailure
    exact isLine_append.2 ⟨isLine_append.2 ⟨isLine_append.2 ⟨by decide, hname⟩, by decide⟩,
      hmessage⟩
  · exact isLine_summary r

end Command
end ServiceMetadata
