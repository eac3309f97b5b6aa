import CodeHealth.Proofs.Reviewer.Span
import CodeHealth.Proofs.Text.Range

/-!
# Coarse findings about a range of lines

Where a document cannot be read, a range of its lines is judged by its text between the offset of
the first line and the end offset of the last.  That text has as many lines as the range, although
the indentation of the first is cut off, and the console is used in it exactly if it is used on one
of the lines.
-/

namespace CodeHealth.Reviewer

variable {α π : Type} (r : Reviewer α π) {t : Text}

section Findings

variable {start stop : Int}

theorem mem_coarseRangeFindings_iff {f : Finding} :
    f ∈ r.coarseRangeFindings t start stop ↔
      (r.thresholds.maxLines < (t.slice start stop).lineCount ∧
        f = r.finding start stop .largeRange) ∨
      ("console.".toList <:+: t.slice start stop ∧ f = r.finding start stop .consoleUse) := by
  simp only [coarseRangeFindings, List.map_append, List.mem_append, List.mem_map, mem_check,
    decide_eq_true_eq, Text.contains_iff]
  constructor
  · rintro (⟨v, ⟨hlines, rfl⟩, rfl⟩ | ⟨v, ⟨hconsole, rfl⟩, rfl⟩)
    · exact .inl ⟨hlines, rfl⟩
    · exact .inr ⟨hconsole, rfl⟩
  · rintro (⟨hlines, rfl⟩ | ⟨hconsole, rfl⟩)
    · exact .inl ⟨_, ⟨hlines, rfl⟩, rfl⟩
    · exact .inr ⟨_, ⟨hconsole, rfl⟩, rfl⟩

theorem exists_size_coarseRangeFindings_iff :
    (∃ f ∈ r.coarseRangeFindings t start stop, f.violation.rule = .size) ↔
      r.thresholds.maxLines < (t.slice start stop).lineCount := by
  constructor
  · rintro ⟨f, hf, hrule⟩
    rcases r.mem_coarseRangeFindings_iff.mp hf with ⟨hlarge, -⟩ | ⟨-, rfl⟩
    · exact hlarge
    · cases hrule
  · intro hlarge
    exact ⟨_, r.mem_coarseRangeFindings_iff.mpr (.inl ⟨hlarge, rfl⟩), rfl⟩

theorem exists_sideEffects_coarseRangeFindings_iff :
    (∃ f ∈ r.coarseRangeFindings t start stop, f.violation.rule = .sideEffects) ↔
      "console.".toList <:+: t.slice start stop := by
  constructor
  · rintro ⟨f, hf, hrule⟩
    rcases r.mem_coarseRangeFindings_iff.mp hf with ⟨-, rfl⟩ | ⟨hused, -⟩
    · cases hrule
    · exact hused
  · intro hused
    exact ⟨_, r.mem_coarseRangeFindings_iff.mpr (.inr ⟨hused, rfl⟩), rfl⟩

theorem offsets_of_mem_coarseRangeFindings {f : Finding}
    (hf : f ∈ r.coarseRangeFindings t start stop) : f.start = start ∧ f.stop = stop := by
  rcases r.mem_coarseRangeFindings_iff.mp hf with ⟨-, rfl⟩ | ⟨-, rfl⟩
  · exact ⟨rfl, rfl⟩
  · exact ⟨rfl, rfl⟩

end Findings

/-- The coarse findings about the lines from one to another: the range is too large exactly if these
are more lines than a unit may have, the console is used exactly if it is used on one of them, and
what is found is found between the offsets of the two lines. -/
theorem coarseRangeFindings_lines {n m : Int} (hn : t.HasLine n) (hm : t.HasLine m)
    (hnm : n ≤ m) :
    ∃ first stop : Nat, t.lineOffset n = .ok first ∧ t.lineEndOffset m = .ok stop ∧
      ((∃ f ∈ r.coarseRangeFindings t first stop, f.violation.rule = .size) ↔
        r.thresholds.maxLines < m - n + 1) ∧
      ((∃ f ∈ r.coarseRangeFindings t first stop, f.violation.rule = .sideEffects) ↔
        ∃ k before line after, n ≤ k ∧ k ≤ m ∧ Text.IsLine t k before line after ∧
          "console.".toList <:+: line) ∧
      ∀ f ∈ r.coarseRangeFindings t first stop, f.start = first ∧ f.stop = stop := by
  obtain ⟨before, line, after, hfirst⟩ := Text.exists_isLine hn
  obtain ⟨before', line', after', hlast⟩ := Text.exists_isLine hm
  have hlines := Text.lineCount_slice_lines hfirst hlast hnm
  have hfeed : '\n' ∉ "console.".toList := by decide
  have hhead : ∃ c ∈ "console.".toList.head?, Text.isBlank c = false := ⟨'c', by decide, by decide⟩
  have hconsole := Text.infix_slice_lines_iff hfirst hlast hnm hfeed hhead
  refine ⟨_, _, hfirst.lineOffset_eq, hlast.lineEndOffset_eq, ?_, ?_, fun f hf ↦ ?_⟩
  · rw [exists_size_coarseRangeFindings_iff, hlines]
  · exact r.exists_sideEffects_coarseRangeFindings_iff.trans hconsole
  · exact r.offsets_of_mem_coarseRangeFindings hf

/-- A text with white space on its first line and a use of the console, indented, on its second. -/
def loggingText : Text := "  \n  console.log\n\n".toList

/-- The first two lines of the text are more than one, and the console is used on the second. -/
theorem coarseRangeFindings_lines_loggingText :
    loggingText.HasLine 1 ∧ loggingText.HasLine 2 ∧
    ∃ first stop : Nat, loggingText.lineOffset 1 = .ok first ∧
      loggingText.lineEndOffset 2 = .ok stop ∧
      (∃ f ∈ briefReviewer.coarseRangeFindings loggingText first stop, f.violation.rule = .size) ∧
      (∃ f ∈ briefReviewer.coarseRangeFindings loggingText first stop,
        f.violation.rule = .sideEffects) ∧
      ∀ f ∈ briefReviewer.coarseRangeFindings loggingText first stop,
        f.start = first ∧ f.stop = stop := by
  have hfirst : loggingText.HasLine 1 := by decide
  have hlast : loggingText.HasLine 2 := by decide
  obtain ⟨first, stop, hstart, hstop, hsize, hconsole, hoffsets⟩ :=
    briefReviewer.coarseRangeFindings_lines hfirst hlast (by decide)
  have hline : Text.IsLine loggingText 2 "  \n".toList "  console.log".toList "\n\n".toList :=
    ⟨by decide, by decide, by simp, by simp, by decide⟩
  have hused : "console.".toList <:+: "  console.log".toList :=
    ⟨"  ".toList, "log".toList, by decide⟩
  exact ⟨hfirst, hlast, first, stop, hstart, hstop, hsize.mpr (by decide),
    hconsole.mpr ⟨2, _, _, _, by decide, by decide, hline, hused⟩, hoffsets⟩

end CodeHealth.Reviewer
